import Ployz.Lib.Run
import Mathlib.Data.PNat.Basic

/-!
# Log history

A page of a container's log: the records at a boundary timestamp, and before it the newest whole
groups of one timestamp that hold a limit of records together. Docker gives only the end of a log,
so the tail read doubles until the page is whole. `HistoryWindow` selects while records arrive and
drops the oldest group as soon as those after it hold the limit.

Main theorem: `history_pages_complete`. What a window keeps of the records pushed so far is their
page (`Kept`), in whatever order they are pushed, and a tail that is cut before the oldest group
kept leaves nothing of the page out (`page_of_tail`).
-/

namespace Ployz.Machine.History

open Run

inductive LogLineStream
  | stdout
  | stderr
deriving DecidableEq

structure RawLogEntry where
  timestampUnixNanos : Int
  stream : LogLineStream
  message : List UInt8
deriving DecidableEq

inductive Status
  | unavailable (message : String)
  | resourceExhausted (message : String)

/-! ## The window -/

/-- The rows kept stand in the order of the map that holds them: by timestamp, and by push within
one. -/
structure HistoryWindow where
  before : Int
  limit : Nat
  count : Nat
  bytes : Nat
  rows : List RawLogEntry

namespace HistoryWindow

def new (before : Int) (limit : Nat) : HistoryWindow := ⟨before, limit, 0, 0, []⟩

/-- A row behind those of its timestamp. -/
def insertRow (row : RawLogEntry) (rows : List RawLogEntry) : List RawLogEntry :=
  rows.takeWhile (·.timestampUnixNanos ≤ row.timestampUnixNanos) ++
    row :: rows.dropWhile (·.timestampUnixNanos ≤ row.timestampUnixNanos)

def size (entries : List RawLogEntry) : Nat := (entries.map (·.message.length)).sum

/-- Drop the oldest group while the others before the boundary hold the limit. -/
def trim (window : HistoryWindow) : HistoryWindow :=
  match _h : window.rows with
  | [] => window
  | first :: rest =>
    let entries := first :: rest.takeWhile (·.timestampUnixNanos == first.timestampUnixNanos)
    if first.timestampUnixNanos = window.before ∨ window.count - entries.length < window.limit then
      window
    else trim
      { window with
        bytes := window.bytes - size entries
        count := window.count - entries.length
        rows := rest.dropWhile (·.timestampUnixNanos == first.timestampUnixNanos) }
termination_by window.rows.length
decreasing_by
  rw [_h, List.length_cons]
  exact Nat.lt_succ_of_le (List.dropWhile_suffix _).length_le

def push (window : HistoryWindow) (row : RawLogEntry) : Except Status HistoryWindow :=
  if window.before < row.timestampUnixNanos then .ok window
  else
    let window := trim
      { window with
        bytes := window.bytes + row.message.length
        count := window.count + (decide (row.timestampUnixNanos < window.before)).toNat
        rows := insertRow row window.rows }
    if 16 * 1024 * 1024 < window.bytes then
      .error (.resourceExhausted "History timestamp group exceeds 16 MiB")
    else .ok window

def olderCount (window : HistoryWindow) : Nat := window.count

def oldest (window : HistoryWindow) : Option Int := window.rows.head?.map (·.timestampUnixNanos)

def intoEntries (window : HistoryWindow) : List RawLogEntry := window.rows

def pushAll (window : HistoryWindow) (records : List RawLogEntry) : Except Status HistoryWindow :=
  records.foldlM push window

end HistoryWindow

/-! ## Reading -/

def i32Max : Nat := 2 ^ 31 - 1

/-- Read a tail, and one twice as long unless it holds the page. `source` is the log as it is at
each read, or the stream's error. -/
def readFrom (source : Nat → Except String (List RawLogEntry)) (before : Int) (limit : ℕ+)
    (attempt : Nat) (tail : ℕ+) : Except Status (List RawLogEntry) :=
  match source attempt with
  | .error error => .error (.unavailable error)
  | .ok log =>
    let entries := log.drop (log.length - tail)
    match (HistoryWindow.new before limit).pushAll entries with
    | .error error => .error error
    | .ok selected =>
      if entries.length < tail ∨ limit ≤ selected.olderCount ∧
          entries.head?.map (·.timestampUnixNanos) ≠ selected.oldest then
        .ok selected.intoEntries
      else if _h : (tail : Nat) * 2 ≤ i32Max then
        readFrom source before limit (attempt + 1) (tail * 2)
      else .error (.resourceExhausted "Docker history is too large for one read")
termination_by i32Max + 1 - tail
decreasing_by
  have := tail.pos
  rw [PNat.mul_coe]
  change i32Max + 1 - (tail : Nat) * 2 < _
  omega

def readHistory (source : Nat → Except String (List RawLogEntry)) (before : Int) (limit : ℕ+) :
    Except Status (List RawLogEntry) :=
  readFrom source before limit 0
    (if (limit : Nat) * 2 ≤ i32Max then limit * 2 else ⟨i32Max, by decide⟩)

/-! ## Pages -/

section

variable (before : Int) (limit : Nat)

/-- The records before the boundary that are newer than a timestamp. -/
def newer (records : List RawLogEntry) (timestamp : Int) : Nat :=
  records.countP fun row =>
    timestamp < row.timestampUnixNanos && row.timestampUnixNanos < before

/-- The boundary's group is needed, and one before it where those after hold less than the limit. -/
def needed (records : List RawLogEntry) (timestamp : Int) : Bool :=
  timestamp == before || (timestamp < before && newer before records timestamp < limit)

def Ordered (records : List RawLogEntry) : Prop :=
  records.Pairwise fun a b => a.timestampUnixNanos ≤ b.timestampUnixNanos

/-- The page of records: the needed groups whole, in time order, each in the records' order. -/
structure Page (records page : List RawLogEntry) : Prop where
  ordered : Ordered page
  groups : ∀ timestamp, page.filter (·.timestampUnixNanos == timestamp) =
    if needed before limit records timestamp then
      records.filter (·.timestampUnixNanos == timestamp) else []

end

variable {before : Int} {limit : Nat} {records other rows : List RawLogEntry} {timestamp : Int}

theorem needed_iff : needed before limit records timestamp = true ↔
    timestamp = before ∨ timestamp < before ∧ newer before records timestamp < limit := by
  simp [needed]

/-- Whether a group is needed depends on how many are newer, up to the limit. -/
theorem needed_congr (h : min limit (newer before records timestamp) =
    min limit (newer before other timestamp)) :
    needed before limit records timestamp = needed before limit other timestamp := by
  rw [Bool.eq_iff_iff, needed_iff, needed_iff]
  omega

theorem newer_append : newer before (records ++ other) timestamp =
    newer before records timestamp + newer before other timestamp :=
  List.countP_append

theorem newer_eq_zero (h : ∀ row ∈ records, row.timestampUnixNanos ≤ timestamp) :
    newer before records timestamp = 0 := by
  rw [newer, List.countP_eq_zero]
  intro row hrow
  have := h row hrow
  simp only [Bool.and_eq_true, decide_eq_true_eq]
  omega

theorem newer_eq_countP (h : ∀ row ∈ records, timestamp < row.timestampUnixNanos) :
    newer before records timestamp = records.countP (·.timestampUnixNanos < before) := by
  apply List.countP_congr
  intro row hrow
  simp [h row hrow]

theorem newer_le (before timestamp : Int) (records : List RawLogEntry) :
    newer before records timestamp ≤
    records.countP (·.timestampUnixNanos < before) := by
  apply List.countP_mono_left
  intro row _ hrow
  exact (Bool.and_eq_true _ _ ▸ hrow).2

theorem filter_group (p : Int → Bool) (rows : List RawLogEntry) (timestamp : Int) :
    (rows.filter (p ·.timestampUnixNanos)).filter (·.timestampUnixNanos == timestamp) =
      if p timestamp then rows.filter (·.timestampUnixNanos == timestamp) else [] := by
  rw [List.filter_filter]
  split_ifs with hp
  · apply List.filter_congr
    intro row _
    by_cases hrow : row.timestampUnixNanos = timestamp
    · simp [hrow, hp]
    · simp [hrow]
  · rw [List.filter_eq_nil_iff]
    rintro row _ hrow
    rw [Bool.and_eq_true, beq_iff_eq] at hrow
    exact hp (hrow.1 ▸ hrow.2)

/-- In time order, what is dropped with a start of the rows has none of its kind left. -/
theorem of_mem_dropWhile {p : RawLogEntry → Bool} (h : Ordered rows)
    (hp : ∀ a ∈ rows, ∀ b ∈ rows, a.timestampUnixNanos ≤ b.timestampUnixNanos → p b = true →
      p a = true) : ∀ row ∈ rows.dropWhile p, p row = false := by
  induction rows with
  | nil => simp
  | cons first rest ih =>
    obtain ⟨hfirst, hrest⟩ := List.pairwise_cons.mp h
    rw [List.dropWhile_cons]
    split_ifs with hcase
    · exact ih hrest fun a ha b hb =>
        hp a (List.mem_cons_of_mem first ha) b (List.mem_cons_of_mem first hb)
    · intro row hrow
      rcases List.mem_cons.mp hrow with rfl | hrow
      · exact Bool.eq_false_iff.mpr hcase
      · refine Bool.eq_false_iff.mpr fun hkind => hcase ?_
        exact hp first List.mem_cons_self row (List.mem_cons_of_mem first hrow)
          (hfirst row hrow) hkind

/-! ## What a window keeps -/

namespace HistoryWindow

section

variable {row : RawLogEntry}

theorem insertRow_perm (row : RawLogEntry) (rows : List RawLogEntry) :
    (insertRow row rows).Perm (row :: rows) := by
  refine List.perm_middle.trans ?_
  rw [List.takeWhile_append_dropWhile]

theorem later_of_mem_dropWhile (row : RawLogEntry) (h : Ordered rows) :
    ∀ later ∈ rows.dropWhile (·.timestampUnixNanos ≤ row.timestampUnixNanos),
      row.timestampUnixNanos < later.timestampUnixNanos := by
  intro later hlater
  have := of_mem_dropWhile h (fun a _ b _ hab hb => by
    simp only [decide_eq_true_eq] at hb ⊢
    omega) later hlater
  simpa using this

theorem ordered_insertRow (h : Ordered rows) : Ordered (insertRow row rows) := by
  have hlater := later_of_mem_dropWhile row h
  have hearlier : ∀ earlier ∈ rows.takeWhile (·.timestampUnixNanos ≤ row.timestampUnixNanos),
      earlier.timestampUnixNanos ≤ row.timestampUnixNanos := fun earlier hmem => by
    simpa using List.all_eq_true.mp List.all_takeWhile earlier hmem
  refine List.pairwise_append.mpr ⟨h.sublist (List.takeWhile_sublist _),
    List.pairwise_cons.mpr ⟨fun later hmem => (hlater later hmem).le,
      h.sublist (List.dropWhile_sublist _)⟩, fun earlier hmem later hmem' => ?_⟩
  have hle := hearlier earlier hmem
  rcases List.mem_cons.mp hmem' with rfl | hmem'
  · exact hle
  · exact hle.trans (hlater later hmem').le

/-- A row comes last in its group. -/
theorem filter_insertRow (h : Ordered rows) :
    (insertRow row rows).filter (·.timestampUnixNanos == timestamp) =
      (rows ++ [row]).filter (·.timestampUnixNanos == timestamp) := by
  have hlater := later_of_mem_dropWhile row h
  conv_rhs => rw [← List.takeWhile_append_dropWhile (l := rows)
    (p := (·.timestampUnixNanos ≤ row.timestampUnixNanos))]
  simp only [insertRow, List.filter_append, List.filter_cons, List.filter_nil, List.append_assoc]
  split_ifs with hrow
  · have hnone : (rows.dropWhile (·.timestampUnixNanos ≤ row.timestampUnixNanos)).filter
        (·.timestampUnixNanos == timestamp) = [] := by
      rw [List.filter_eq_nil_iff]
      intro later hmem
      have := hlater later hmem
      rw [beq_iff_eq] at hrow ⊢
      omega
    rw [hnone]
    simp
  · simp

end

variable {window : HistoryWindow}

/-- Rows in time order up to the boundary, and the count of those before it. -/
structure Proper (window : HistoryWindow) : Prop where
  ordered : Ordered window.rows
  within : ∀ row ∈ window.rows, row.timestampUnixNanos ≤ window.before
  counted : window.count = window.rows.countP (·.timestampUnixNanos < window.before)

/-- Trimming keeps the groups that are needed among the rows. -/
structure Trimmed (window later : HistoryWindow) : Prop where
  before : later.before = window.before
  limit : later.limit = window.limit
  proper : later.Proper
  newer : ∀ timestamp, min window.limit (newer window.before later.rows timestamp) =
    min window.limit (newer window.before window.rows timestamp)
  rows : later.rows = window.rows.filter fun row =>
    needed window.before window.limit window.rows row.timestampUnixNanos

theorem trimmed_self (h : window.Proper) (hneeded : ∀ row ∈ window.rows,
    needed window.before window.limit window.rows row.timestampUnixNanos = true) :
    Trimmed window window :=
  ⟨rfl, rfl, h, fun _ => rfl, (List.filter_eq_self.mpr hneeded).symm⟩

theorem newer_split {entries : List RawLogEntry} {oldest : Int}
    (h : ∀ row ∈ entries, row.timestampUnixNanos = oldest) (before timestamp : Int)
    (later : List RawLogEntry) :
    newer before (entries ++ later) timestamp = newer before later timestamp +
      if timestamp < oldest ∧ oldest < before then entries.length else 0 := by
  rw [newer_append, Nat.add_comm]
  congr 1
  split_ifs with hcase
  · rw [newer, List.countP_eq_length]
    intro row hrow
    simp [h row hrow, hcase]
  · rw [newer, List.countP_eq_zero]
    intro row hrow
    simpa [h row hrow] using hcase

/-- The oldest group of a window and the rows after it. -/
structure Oldest (window : HistoryWindow) (oldest : Int) (entries later : List RawLogEntry) :
    Prop where
  split : window.rows = entries ++ later
  within : oldest ≤ window.before
  same : ∀ row ∈ entries, row.timestampUnixNanos = oldest
  after : ∀ row ∈ later, oldest < row.timestampUnixNanos
  counted : oldest < window.before →
    window.count = entries.length + later.countP (·.timestampUnixNanos < window.before)

theorem Proper.oldest {first : RawLogEntry} {rest : List RawLogEntry} (h : window.Proper)
    (hrows : window.rows = first :: rest) : window.Oldest first.timestampUnixNanos
      (first :: rest.takeWhile (·.timestampUnixNanos == first.timestampUnixNanos))
      (rest.dropWhile (·.timestampUnixNanos == first.timestampUnixNanos)) := by
  obtain ⟨hfirst, hrest⟩ := List.pairwise_cons.mp (hrows ▸ h.ordered)
  have hsame : ∀ row ∈ first :: rest.takeWhile (·.timestampUnixNanos == first.timestampUnixNanos),
      row.timestampUnixNanos = first.timestampUnixNanos := by
    rw [List.forall_mem_cons]
    exact ⟨rfl, fun row hrow => by simpa using List.all_eq_true.mp List.all_takeWhile row hrow⟩
  have hsplit : window.rows =
      (first :: rest.takeWhile (·.timestampUnixNanos == first.timestampUnixNanos)) ++
        rest.dropWhile (·.timestampUnixNanos == first.timestampUnixNanos) := by
    rw [hrows, List.cons_append, List.takeWhile_append_dropWhile]
  refine ⟨hsplit, h.within first (by simp [hrows]), hsame, fun row hrow => ?_, fun hbefore => ?_⟩
  · have hne := of_mem_dropWhile hrest (fun a ha b _ hab hb => by
      have := hfirst a ha
      rw [beq_iff_eq] at hb ⊢
      omega) row hrow
    have := hfirst row ((List.dropWhile_sublist _).mem hrow)
    rw [beq_eq_false_iff_ne] at hne
    omega
  · rw [h.counted, hsplit, List.countP_append, List.countP_eq_length.mpr]
    intro row hrow
    simpa [hsame row hrow] using hbefore

namespace Oldest

variable {oldest : Int} {entries later : List RawLogEntry}

/-- Where the rows after the oldest group are below the limit, every group is needed. -/
theorem needed_of_mem (h : window.Oldest oldest entries later) (hproper : window.Proper)
    (hstop : oldest = window.before ∨ window.count - entries.length < window.limit) :
    ∀ row ∈ window.rows,
      needed window.before window.limit window.rows row.timestampUnixNanos = true := by
  intro row hrow
  have hwithin := hproper.within row hrow
  have holdest : oldest ≤ row.timestampUnixNanos := by
    rcases List.mem_append.mp (h.split ▸ hrow) with hrow | hrow
    · exact (h.same row hrow).ge
    · exact (h.after row hrow).le
  rw [needed_iff]
  by_cases hbefore : row.timestampUnixNanos = window.before
  · exact Or.inl hbefore
  · have hcounted := h.counted (by omega)
    have hle := newer_le window.before row.timestampUnixNanos later
    rw [h.split, newer_split h.same, if_neg (by omega)]
    omega

/-- Where they hold the limit, the oldest group is not needed and no other depends on it. -/
theorem needed_drop (h : window.Oldest oldest entries later) (hbefore : oldest < window.before)
    (hlimit : window.limit ≤ window.count - entries.length) :
    (∀ timestamp, min window.limit (newer window.before later timestamp) =
      min window.limit (newer window.before window.rows timestamp)) ∧
    later.filter (fun row => needed window.before window.limit later row.timestampUnixNanos) =
      window.rows.filter fun row =>
        needed window.before window.limit window.rows row.timestampUnixNanos := by
  have hcounted := h.counted hbefore
  have hall : ∀ timestamp ≤ oldest, newer window.before later timestamp =
      later.countP (·.timestampUnixNanos < window.before) := fun timestamp hle =>
    newer_eq_countP fun row hrow => hle.trans_lt (h.after row hrow)
  have hnewer : ∀ timestamp, min window.limit (newer window.before later timestamp) =
      min window.limit (newer window.before window.rows timestamp) := by
    intro timestamp
    rw [h.split, newer_split h.same]
    split_ifs with hcase
    · have := hall timestamp hcase.1.le
      omega
    · rfl
  have hdropped : needed window.before window.limit window.rows oldest = false := by
    have := hall oldest le_rfl
    rw [← needed_congr (hnewer _), Bool.eq_false_iff, Ne, needed_iff]
    omega
  have hnone : entries.filter (fun row =>
      needed window.before window.limit window.rows row.timestampUnixNanos) = [] := by
    rw [List.filter_eq_nil_iff]
    intro row hrow
    rw [h.same row hrow, hdropped]
    exact Bool.false_ne_true
  refine ⟨hnewer, ?_⟩
  rw [List.filter_congr fun row _ => needed_congr (hnewer _)]
  conv_rhs => arg 2; rw [h.split]
  rw [List.filter_append, hnone, List.nil_append]

end Oldest

theorem trimmed_trim (h : window.Proper) : Trimmed window window.trim := by
  fun_induction trim window with
  | case1 window hrows => exact trimmed_self h (by simp [hrows])
  | case2 window first rest hrows entries hstop =>
    exact trimmed_self h ((h.oldest hrows).needed_of_mem h hstop)
  | case3 window first rest hrows entries hgo ih =>
    have holdest := h.oldest hrows
    obtain ⟨hbefore, hlimit⟩ := not_or.mp hgo
    have hless := lt_of_le_of_ne holdest.within hbefore
    obtain ⟨hnewer, hfilter⟩ := holdest.needed_drop hless (Nat.not_lt.mp hlimit)
    have hcounted := holdest.counted hless
    have hproper := ih ⟨h.ordered.sublist (hrows ▸ (List.dropWhile_sublist _).cons first),
      fun row hrow => h.within row (holdest.split ▸ List.mem_append_right _ hrow),
      by rw [hcounted]; exact Nat.add_sub_cancel_left _ _⟩
    exact ⟨hproper.before, hproper.limit, hproper.proper,
      fun timestamp => (hproper.newer timestamp).trans (hnewer timestamp),
      hproper.rows.trans hfilter⟩

/-- A window holds the page of the records pushed. -/
structure Kept (records : List RawLogEntry) (window : HistoryWindow) : Prop where
  proper : window.Proper
  newer : ∀ timestamp, min window.limit (newer window.before window.rows timestamp) =
    min window.limit (newer window.before records timestamp)
  groups : ∀ timestamp, window.rows.filter (·.timestampUnixNanos == timestamp) =
    if needed window.before window.limit records timestamp then
      records.filter (·.timestampUnixNanos == timestamp) else []

theorem Kept.page (h : Kept records window) : Page window.before window.limit records window.rows :=
  ⟨h.proper.ordered, h.groups⟩

theorem kept_new (before : Int) (limit : Nat) : Kept [] (new before limit) :=
  ⟨⟨List.Pairwise.nil, by simp [new], rfl⟩, fun _ => rfl, fun _ => (ite_self _).symm⟩

/-- A row pushed is one record more. -/
theorem Kept.push {row : RawLogEntry} {later : HistoryWindow} (h : Kept records window)
    (hpush : window.push row = .ok later) :
    later.before = window.before ∧ later.limit = window.limit ∧ Kept (records ++ [row]) later := by
  unfold HistoryWindow.push at hpush
  split_ifs at hpush with hbeyond
  · -- beyond the boundary a record is in no group of the page
    obtain rfl := Except.ok.inj hpush
    have hnewer : ∀ timestamp, History.newer window.before [row] timestamp = 0 :=
      fun timestamp => by
      simp [History.newer]
      omega
    refine ⟨rfl, rfl, h.proper, fun timestamp => ?_, fun timestamp => ?_⟩
    · rw [newer_append, hnewer, Nat.add_zero, h.newer]
    · have hsame : needed window.before window.limit records timestamp =
          needed window.before window.limit (records ++ [row]) timestamp :=
        needed_congr (by rw [newer_append, hnewer, Nat.add_zero])
      rw [h.groups, hsame]
      split_ifs with hneeded
      · rw [List.filter_append]
        have : timestamp ≠ row.timestampUnixNanos := by
          rw [needed_iff] at hneeded
          omega
        simp [this.symm]
      · rfl
  · dsimp only at hpush
    split_ifs at hpush
    obtain rfl := Except.ok.inj hpush
    have hperm := insertRow_perm row window.rows
    set inserted : HistoryWindow :=
      { window with
        bytes := window.bytes + row.message.length
        count := window.count + (decide (row.timestampUnixNanos < window.before)).toNat
        rows := insertRow row window.rows } with hinserted
    have hproper : inserted.Proper := by
      refine ⟨ordered_insertRow h.proper.ordered, fun other hother => ?_, ?_⟩
      · rcases List.mem_cons.mp (hperm.mem_iff.mp hother) with rfl | hother
        · exact Int.not_lt.mp hbeyond
        · exact h.proper.within other hother
      · change _ = (insertRow row window.rows).countP _
        rw [hperm.countP_eq, List.countP_cons, ← h.proper.counted]
        by_cases hbefore : row.timestampUnixNanos < window.before
        · simp [hinserted, hbefore]
        · simp [hinserted, hbefore]
    have hnewer : ∀ timestamp,
      min window.limit (History.newer window.before inserted.rows timestamp) =
        min window.limit (History.newer window.before (records ++ [row]) timestamp) := by
      intro timestamp
      have hrows : History.newer window.before inserted.rows timestamp =
          History.newer window.before [row] timestamp +
            History.newer window.before window.rows timestamp := by
        rw [← newer_append]
        exact hperm.countP_eq _
      have := h.newer timestamp
      rw [hrows, newer_append]
      omega
    have htrimmed := trimmed_trim hproper
    refine ⟨htrimmed.before, htrimmed.limit, htrimmed.proper, fun timestamp => ?_, fun timestamp =>
      ?_⟩
    · rw [htrimmed.limit, htrimmed.before]
      exact (htrimmed.newer timestamp).trans (hnewer timestamp)
    · have hgroup : inserted.rows.filter (·.timestampUnixNanos == timestamp) = _ :=
        filter_insertRow h.proper.ordered
      have hneeded := needed_congr (hnewer timestamp)
      rw [htrimmed.limit, htrimmed.before, htrimmed.rows, filter_group (needed _ _ _), hgroup,
        List.filter_append, List.filter_append, h.groups]
      change (if needed window.before window.limit inserted.rows timestamp = true then _ else _) =
        if needed window.before window.limit (records ++ [row]) timestamp = true then _ else _
      rw [hneeded]
      split_ifs with hafter hbefore
      · rfl
      · refine (hbefore ?_).elim
        rw [needed_iff, newer_append] at hafter
        rw [needed_iff]
        omega
      · rfl

theorem Kept.pushAll {pushed : List RawLogEntry} {later : HistoryWindow} (h : Kept pushed window)
    (hpush : window.pushAll records = .ok later) :
    later.before = window.before ∧ later.limit = window.limit ∧ Kept (pushed ++ records) later := by
  induction records generalizing window pushed with
  | nil =>
    obtain rfl := Except.ok.inj hpush
    exact ⟨rfl, rfl, by simpa using h⟩
  | cons row records ih =>
    rw [HistoryWindow.pushAll, List.foldlM_cons] at hpush
    obtain ⟨between, hrow, hrest⟩ := bind_eq_ok.mp hpush
    obtain ⟨hbefore, hlimit, hkept⟩ := h.push hrow
    obtain ⟨hbefore', hlimit', hall⟩ := ih hkept hrest
    exact ⟨hbefore'.trans hbefore, hlimit'.trans hlimit, by simpa using hall⟩

end HistoryWindow

open HistoryWindow

/-! ## Tails -/

/-- A cut before the oldest group kept leaves nothing of the page out. -/
theorem page_of_tail {cut : List RawLogEntry} {window : HistoryWindow}
    (hlog : Ordered (cut ++ records)) (h : Kept records window) (hpos : 0 < window.limit)
    (hlimit : window.limit ≤ window.olderCount)
    (hfirst : records.head?.map (·.timestampUnixNanos) ≠ window.oldest) :
    Page window.before window.limit (cut ++ records) window.rows := by
  obtain ⟨-, hrecords, hcut⟩ := List.pairwise_append.mp hlog
  have hcount : window.limit ≤ window.rows.countP (·.timestampUnixNanos < window.before) :=
    h.proper.counted ▸ hlimit
  obtain ⟨older, holder, hbefore⟩ := List.countP_pos_iff.mp (hpos.trans_le hcount)
  rw [decide_eq_true_eq] at hbefore
  obtain ⟨first, rest, hrows⟩ := List.exists_cons_of_ne_nil (List.ne_nil_of_mem holder)
  have hordered := h.proper.ordered
  rw [hrows] at hordered
  have holdest : ∀ row ∈ window.rows, first.timestampUnixNanos ≤ row.timestampUnixNanos := by
    rw [hrows, List.forall_mem_cons]
    exact ⟨le_rfl, (List.pairwise_cons.mp hordered).1⟩
  have hmem : first ∈ records := by
    have hgroup : first ∈
        window.rows.filter (·.timestampUnixNanos == first.timestampUnixNanos) := by
      simp [hrows]
    rw [h.groups] at hgroup
    split_ifs at hgroup
    · exact (List.mem_filter.mp hgroup).1
    · cases hgroup
  -- the records start before the oldest group, so the cut is older still
  obtain ⟨head, tail, rfl⟩ := List.exists_cons_of_ne_nil (List.ne_nil_of_mem hmem)
  have hhead : head.timestampUnixNanos < first.timestampUnixNanos := by
    refine lt_of_le_of_ne ?_ fun heq => hfirst (by simp [oldest, hrows, heq])
    rcases List.mem_cons.mp hmem with rfl | hmem
    · exact le_rfl
    · exact (List.pairwise_cons.mp hrecords).1 first hmem
  have hearlier : ∀ row ∈ cut, row.timestampUnixNanos < first.timestampUnixNanos :=
    fun row hrow => (hcut row hrow head List.mem_cons_self).trans_lt hhead
  refine ⟨h.proper.ordered, fun timestamp => ?_⟩
  by_cases hold : timestamp < first.timestampUnixNanos
  · have hnone : window.rows.filter (·.timestampUnixNanos == timestamp) = [] := by
      rw [List.filter_eq_nil_iff]
      intro row hrow
      have := holdest row hrow
      rw [beq_iff_eq]
      omega
    have hall : newer window.before window.rows timestamp = _ :=
      newer_eq_countP fun row hrow => hold.trans_le (holdest row hrow)
    have hsame := h.newer timestamp
    have hfirst := (holdest older holder).trans_lt hbefore
    rw [hnone, if_neg]
    rw [needed_iff, newer_append]
    omega
  · have hnone : cut.filter (·.timestampUnixNanos == timestamp) = [] := by
      rw [List.filter_eq_nil_iff]
      intro row hrow
      have := hearlier row hrow
      rw [beq_iff_eq]
      omega
    have hzero : newer window.before cut timestamp = 0 := newer_eq_zero fun row hrow => by
      have := hearlier row hrow
      omega
    have hneeded : needed window.before window.limit (cut ++ head :: tail) timestamp =
        needed window.before window.limit (head :: tail) timestamp :=
      needed_congr (by rw [newer_append, hzero, Nat.zero_add])
    rw [h.groups, hneeded, List.filter_append, hnone, List.nil_append]

theorem page_of_readFrom {source : Nat → Except String (List RawLogEntry)} {limit tail : ℕ+}
    {attempt : Nat} {page : List RawLogEntry}
    (hlogs : ∀ attempt log, source attempt = .ok log → Ordered log)
    (h : readFrom source before limit attempt tail = .ok page) :
    ∃ attempt log, source attempt = .ok log ∧ Page before limit log page := by
  fun_induction readFrom source before limit attempt tail with
  | case1 => cases h
  | case2 => cases h
  | case3 attempt tail log hsource entries selected hselected hcomplete =>
    obtain rfl := Except.ok.inj h
    obtain ⟨hbefore, hlimit, hkept⟩ := (kept_new before limit).pushAll hselected
    rw [List.nil_append] at hkept
    refine ⟨attempt, log, hsource, ?_⟩
    have hsplit := List.take_append_drop (log.length - tail) log
    have hpage := hkept.page
    rw [hbefore, hlimit] at hpage
    rcases hcomplete with hshort | ⟨hfull, hfirst⟩
    · have hwhole : entries = log := by
        have : log.length - tail = 0 := by
          simp only [entries, List.length_drop] at hshort
          omega
        simp only [entries, this, List.drop_zero]
      exact hwhole ▸ hpage
    · have htail := page_of_tail (hsplit ▸ hlogs attempt log hsource) hkept
        (hlimit ▸ limit.pos) (hlimit ▸ hfull) hfirst
      rw [hbefore, hlimit] at htail
      exact hsplit ▸ htail
  | case4 attempt tail log hsource entries selected hselected hcomplete hnext ih => exact ih h
  | case5 => cases h

theorem Page.count {page : List RawLogEntry} (h : Page before limit records page)
    (row : RawLogEntry) : page.count row =
      if needed before limit records row.timestampUnixNanos then records.count row else 0 := by
  have hsame : (row.timestampUnixNanos == row.timestampUnixNanos) = true := beq_self_eq_true _
  rw [← List.count_filter (p := (·.timestampUnixNanos == row.timestampUnixNanos)) hsame, h.groups]
  split_ifs
  · exact List.count_filter hsame
  · rfl

theorem bytes_trim_le (window : HistoryWindow) : window.trim.bytes ≤ window.bytes := by
  fun_induction HistoryWindow.trim window with
  | case1 => exact le_rfl
  | case2 => exact le_rfl
  | case3 _ _ _ _ _ _ ih => exact ih.trans (Nat.sub_le _ _)

/-- A window never refuses records that are small enough to be kept together. -/
theorem exists_pushAll (records : List RawLogEntry) {window : HistoryWindow}
    (h : window.bytes + size records ≤ 16 * 1024 * 1024) :
    ∃ later, window.pushAll records = .ok later := by
  induction records generalizing window with
  | nil => exact ⟨window, rfl⟩
  | cons row records ih =>
    have hsize : size (row :: records) = row.message.length + size records := by simp [size]
    rw [HistoryWindow.pushAll, List.foldlM_cons, HistoryWindow.push]
    split_ifs with hbeyond
    · exact ih (by omega)
    · set added : HistoryWindow := ⟨window.before, window.limit,
        window.count + (decide (row.timestampUnixNanos < window.before)).toNat,
        window.bytes + row.message.length, insertRow row window.rows⟩
      have hbytes : added.trim.bytes ≤ window.bytes + row.message.length := bytes_trim_le added
      rw [if_neg (by omega)]
      exact ih (by omega)

/-- When it succeeds, a read returns the page of the log it read last; and a window that took all
records pushed holds their page, the same for the same records in another order. It takes them, in
any order, where they have at most 16 MiB together. -/
theorem history_pages_complete (before : Int) :
    (∀ (source : Nat → Except String (List RawLogEntry)) (limit : ℕ+) (page : List RawLogEntry),
      (∀ attempt log, source attempt = .ok log → Ordered log) →
      readHistory source before limit = .ok page →
        ∃ attempt log, source attempt = .ok log ∧ Page before limit log page) ∧
    (∀ (limit : Nat) (records : List RawLogEntry) (window : HistoryWindow),
      (new before limit).pushAll records = .ok window →
        Page before limit records window.intoEntries) ∧
    (∀ (limit : Nat) (records other : List RawLogEntry) (window another : HistoryWindow),
      records.Perm other → (new before limit).pushAll records = .ok window →
      (new before limit).pushAll other = .ok another →
        window.intoEntries.Perm another.intoEntries) ∧
    (∀ (limit : Nat) (records : List RawLogEntry), size records ≤ 16 * 1024 * 1024 →
      ∃ window, (new before limit).pushAll records = .ok window) := by
  have hpage : ∀ (limit : Nat) (records : List RawLogEntry) (window : HistoryWindow),
      (new before limit).pushAll records = .ok window →
        Page before limit records window.intoEntries := by
    intro limit records window h
    obtain ⟨hbefore, hlimit, hkept⟩ := (kept_new before limit).pushAll h
    have hpage := hkept.page
    rw [hbefore, hlimit] at hpage
    exact hpage
  refine ⟨fun source limit page hlogs h => page_of_readFrom hlogs h, hpage, ?_,
    fun limit records h => exists_pushAll records (by simpa [new] using h)⟩
  intro limit records other window another hperm hwindow hanother
  rw [List.perm_iff_count]
  intro row
  have hneeded : needed before limit records row.timestampUnixNanos =
      needed before limit other row.timestampUnixNanos :=
    needed_congr (congrArg (min limit) (hperm.countP_eq _))
  rw [(hpage limit records window hwindow).count, (hpage limit other another hanother).count,
    hneeded, hperm.count_eq]

/-- While a window has less than its limit it drops nothing. -/
theorem push_of_few {window : HistoryWindow} {row : RawLogEntry}
    (hrow : row.timestampUnixNanos < window.before) (h : window.count < window.limit) :
    window.push row = if 16 * 1024 * 1024 < window.bytes + row.message.length then
        .error (.resourceExhausted "History timestamp group exceeds 16 MiB")
      else .ok ⟨window.before, window.limit, window.count + 1, window.bytes + row.message.length,
        insertRow row window.rows⟩ := by
  have htrim : ∀ bytes rows,
    HistoryWindow.trim ⟨window.before, window.limit, window.count + 1, bytes, rows⟩ =
      ⟨window.before, window.limit, window.count + 1, bytes, rows⟩ := by
    intro bytes rows
    rw [HistoryWindow.trim]
    split
    · rfl
    · rw [if_pos]
      rw [List.length_cons]
      right
      dsimp only
      omega
  simp only [push, if_neg (show ¬ window.before < row.timestampUnixNanos by omega), hrow,
    decide_true, Bool.toNat_true, htrim]

namespace Sample

def older : List RawLogEntry := [⟨8, .stdout, []⟩, ⟨9, .stdout, []⟩]

def holding : HistoryWindow := ⟨10, 2, 2, 0, older⟩

theorem push_older : (new 10 2).pushAll older = .ok holding := by
  simp [pushAll, older, new, push_of_few, insertRow, holding, pure, Except.pure, bind, Except.bind]

theorem short_log_read :
    (∃ page, readHistory (fun _ => .ok older) 10 2 = .ok page ∧ Page 10 2 older page) ∧
    ∃ window another, (new 10 2).pushAll older = .ok window ∧
      (new 10 2).pushAll older.reverse = .ok another ∧
      window.intoEntries.Perm another.intoEntries := by
  obtain ⟨hread, -, hsame, htaken⟩ := history_pages_complete 10
  have hpage : readHistory (fun _ => .ok older) 10 2 = .ok older := by
    have htail : readHistory (fun _ => .ok older) 10 2 = readFrom (fun _ => .ok older) 10 2 0 4 :=
      rfl
    have hwhole : older.drop (older.length - ((4 : ℕ+) : Nat)) = older := rfl
    have hpushed : (new 10 ((2 : ℕ+) : Nat)).pushAll older = .ok holding := push_older
    rw [htail, readFrom]
    simp only [hwhole, hpushed]
    exact if_pos (.inl (by decide))
  obtain ⟨_, _, hlog, hpaged⟩ := hread _ 2 _ (fun _ log hlog => by
    obtain rfl := Except.ok.inj hlog
    simp [Ordered, older]) hpage
  obtain rfl := Except.ok.inj hlog
  obtain ⟨another, hanother⟩ := htaken 2 older.reverse (by decide)
  exact ⟨⟨_, hpage, hpaged⟩, _, another, push_older, hanother,
    hsame 2 older _ _ another (List.reverse_perm older).symm push_older hanother⟩

/-- A group older than two records is dropped at once, however large it is. -/
theorem holding_drops {timestamp : Int} (h : timestamp < 8) (message : List UInt8) :
    holding.push ⟨timestamp, .stdout, message⟩ = .ok holding := by
  have hrows : insertRow ⟨timestamp, .stdout, message⟩ older =
      ⟨timestamp, .stdout, message⟩ :: older := by
    simp [insertRow, older, h]
  have hwithin : ¬ 10 < timestamp := by omega
  have holder : timestamp < 10 := by omega
  have hapart : ¬ timestamp = 10 := by omega
  have hgroup : ¬ 8 = timestamp := by omega
  have hstop : HistoryWindow.trim holding = holding := by
    rw [HistoryWindow.trim]
    simp [holding, older]
  have hdrop : HistoryWindow.trim
      ⟨10, 2, 3, message.length, ⟨timestamp, .stdout, message⟩ :: older⟩ = holding := by
    refine Eq.trans ?_ hstop
    rw [HistoryWindow.trim]
    simp [older, holding, hapart, hgroup, size]
  simp only [push, holding, hwithin, holder, hrows, if_false, decide_true, Bool.toNat_true,
    Nat.zero_add, hdrop]
  rfl

def early (message : List UInt8) : List RawLogEntry :=
  [⟨1, .stdout, message⟩, ⟨5, .stdout, message⟩]

theorem push_older_early (message : List UInt8) :
    (new 10 2).pushAll (older ++ early message) = .ok holding := by
  rw [pushAll, List.foldlM_append, show List.foldlM push _ older = _ from push_older]
  simp [early, holding_drops, bind, Except.bind, pure, Except.pure]

theorem push_early {message : List UInt8} (h : message.length = 9 * 1024 * 1024) :
    (new 10 2).pushAll (early message ++ older) =
      .error (.resourceExhausted "History timestamp group exceeds 16 MiB") := by
  simp [pushAll, early, new, push_of_few, h, insertRow, bind, Except.bind]

/-- Large records of two groups, which two newer ones make room for, are refused before these. -/
theorem large_records_refused_first : ∃ message : List UInt8,
    (∃ window, (new 10 2).pushAll (older ++ early message) = .ok window ∧
      window.intoEntries = older) ∧
    (new 10 2).pushAll (early message ++ older) =
      .error (.resourceExhausted "History timestamp group exceeds 16 MiB") :=
  ⟨_, ⟨holding, push_older_early _, rfl⟩, push_early (List.length_replicate (a := 0))⟩

end Sample

end Ployz.Machine.History
