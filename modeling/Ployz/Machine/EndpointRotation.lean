import Ployz.Lib.Orbit
import Mathlib.Algebra.Group.Nat.Defs

/-!
# Endpoint rotation

Each peer of the mesh has a list of advertised addresses, of which one is selected. A poll that
finds the peer down selects the address after the selected one, which it looks up in the list. Times
are nanoseconds.

Main theorem: `rotation_tries_every_address_iff`. The look up finds the first place of an address,
so from its second place the rotation goes back: every address is tried where none is listed twice,
or where the first to be listed again is the first of the list and no new one follows
(`ComesRound`).
-/

namespace Ployz.Machine

def endpointConnectionTimeout : Nat := 15 * 10 ^ 9
def peerDownInterval : Nat := (180 + 5 + 90) * 10 ^ 9
def durationMax : Nat := (2 ^ 64 - 1) * 10 ^ 9 + 999999999

inductive PeerStatus
  | unknown
  | up
  | down
deriving DecidableEq, Repr

inductive EndpointState (α : Type)
  | unselected
  | testing (endpoint : α) (since : Int)
  | established (endpoint : α)
deriving DecidableEq

structure EndpointSelection (α : Type) where
  candidates : List α
  state : EndpointState α

structure Poll (α : Type) where
  now : Int
  lastHandshake : Option Int
  deviceEndpoint : Option α

/-- The time since an event, the longest one where there was none or it is yet to come. -/
def elapsed (now : Int) (earlier : Option Int) : Nat :=
  match earlier with
  | none => durationMax
  | some earlier => if earlier ≤ now then (now - earlier).toNat else durationMax

variable {α : Type} [DecidableEq α]

def initialEndpointState (candidates : List α) (selected : Option α) (now : Int) :
    EndpointState α :=
  match selected with
  | some endpoint => .established endpoint
  | none =>
    match candidates.head? with
    | none => .unselected
    | some endpoint => .testing endpoint now

namespace EndpointSelection

def selected (selection : EndpointSelection α) : Option α :=
  match selection.state with
  | .unselected => none
  | .testing endpoint _ | .established endpoint => some endpoint

/-- The selection with other candidates, and the endpoint it selects if it had none. -/
def replaceCandidates (selection : EndpointSelection α) (candidates : List α)
    (fallback : Option α) (now : Int) : Option α × EndpointSelection α :=
  if selection.state = .unselected then
    let selection := ⟨candidates, initialEndpointState candidates fallback now⟩
    (selection.selected, selection)
  else (none, ⟨candidates, selection.state⟩)

def status (selection : EndpointSelection α) (now : Int) (lastHandshake : Option Int) :
    PeerStatus :=
  let sinceHandshake := elapsed now lastHandshake
  match selection.state with
  | .unselected => .unknown
  | .established _ => if sinceHandshake < peerDownInterval then .up else .down
  | .testing _ since =>
    let sinceChange := (now - since).toNat
    let handshookAfterChange := lastHandshake.any (since < ·)
    if peerDownInterval < sinceChange then
      if sinceHandshake < peerDownInterval then .up else .down
    else if sinceChange < endpointConnectionTimeout then
      if handshookAfterChange then .up else .unknown
    else if handshookAfterChange then .up
    else .down

def nextEndpoint (selection : EndpointSelection α) : Option α := do
  let selected ← selection.selected
  let next := ((selection.candidates.findIdx? (· == selected)).bind fun index =>
    if 1 < selection.candidates.length then some ((index + 1) % selection.candidates.length)
    else none).getD 0
  selection.candidates[next]?

/-- The endpoint a poll changes to, and the selection after it. -/
def poll (selection : EndpointSelection α) (observed : Poll α) :
    Option α × EndpointSelection α :=
  match observed.deviceEndpoint.filter fun endpoint => selection.selected != some endpoint with
  | some endpoint => (some endpoint, { selection with state := .established endpoint })
  | none =>
    let changed := if selection.status observed.now observed.lastHandshake = .down
      then selection.nextEndpoint else none
    match changed with
    | some endpoint => (changed, { selection with state := .testing endpoint observed.now })
    | none => (changed, selection)

/-! ## Polls of a peer that stays down -/

/-- The peer stays down through the polls, and the device reports no other endpoint. -/
def StaysDown (selection : EndpointSelection α) : List (Poll α) → Prop
  | [] => True
  | observed :: polls =>
    (∀ endpoint ∈ observed.deviceEndpoint, selection.selected = some endpoint) ∧
      selection.status observed.now observed.lastHandshake ≠ .up ∧
      (selection.poll observed).2.StaysDown polls

/-- The endpoints that polls switch to. -/
def switched (selection : EndpointSelection α) : List (Poll α) → List α
  | [] => []
  | observed :: polls =>
    (selection.poll observed).1.toList ++ (selection.poll observed).2.switched polls

/-- However often the peer is polled while it is down: once there were as many switches as
candidates, each candidate was selected. -/
def TriesEvery (selection : EndpointSelection α) : Prop :=
  ∀ polls, selection.StaysDown polls →
    selection.candidates.length ≤ (selection.switched polls).length →
    ∀ candidate ∈ selection.candidates, candidate ∈ selection.selected.toList ++
      (selection.switched polls).take selection.candidates.length

end EndpointSelection

/-- The address that follows a selected one in a list. -/
def following (candidates : List α) (selected : α) : Option α :=
  (⟨candidates, .established selected⟩ : EndpointSelection α).nextEndpoint

section

variable {candidates before after : List α} {selected next : α}

theorem following_eq : following candidates selected =
    candidates[((candidates.findIdx? (· == selected)).bind fun index =>
      if 1 < candidates.length then some ((index + 1) % candidates.length) else none).getD 0]? :=
  rfl

theorem isSome_following (h : candidates ≠ []) (selected : α) :
    (following candidates selected).isSome = true := by
  have hpos := List.length_pos_iff.mpr h
  rw [following_eq]
  cases candidates.findIdx? (· == selected) with
  | none => simpa using hpos
  | some index =>
    rw [Option.bind_some]
    split_ifs
    · simpa using Nat.mod_lt _ hpos
    · simpa using hpos

theorem following_of_not_mem (h : selected ∉ candidates) :
    following candidates selected = candidates.head? := by
  have hnone : candidates.findIdx? (· == selected) = none := by
    rw [List.findIdx?_eq_none_iff]
    intro candidate hcandidate
    exact beq_eq_false_iff_ne.mpr (ne_of_mem_of_not_mem hcandidate h)
  rw [following_eq, hnone, List.head?_eq_getElem?]
  rfl

theorem findIdx?_split (h : selected ∉ before) :
    (before ++ selected :: after).findIdx? (· == selected) = some before.length := by
  rw [List.findIdx?_append, List.findIdx?_eq_none_iff.mpr fun candidate hcandidate =>
    beq_eq_false_iff_ne.mpr (ne_of_mem_of_not_mem hcandidate h)]
  simp [List.findIdx?_cons]

theorem following_split (h : selected ∉ before) :
    following (before ++ selected :: next :: after) selected = some next := by
  have hlt : before.length + 1 < (before ++ selected :: next :: after).length := by simp
  have hmany : 1 < (before ++ selected :: next :: after).length := by omega
  rw [following_eq, findIdx?_split h, Option.bind_some, if_pos hmany, Nat.mod_eq_of_lt hlt]
  simp

theorem following_last (h : selected ∉ before) :
    following (before ++ [selected]) selected = (before ++ [selected]).head? := by
  rw [following_eq, findIdx?_split h, Option.bind_some]
  split_ifs <;> simp [List.head?_eq_getElem?]

/-- Distinct addresses follow one another, and what stands after them the last. -/
theorem isChain_following (before after : List α) {distinct : List α}
    (h : (before ++ distinct).Nodup) : (distinct ++ after.head?.toList).IsChain
      fun value next => following (before ++ distinct ++ after) value = some next := by
  induction distinct generalizing before with
  | nil => cases after <;> simp
  | cons value distinct ih =>
    have hvalue : value ∉ before := fun hmem =>
      (List.nodup_append.mp h).2.2 value hmem value List.mem_cons_self rfl
    have hrest := ih (before ++ [value]) (by simpa using h)
    simp only [List.append_assoc, List.singleton_append] at hrest
    cases hnext : distinct ++ after with
    | nil =>
      obtain ⟨rfl, rfl⟩ := List.append_eq_nil_iff.mp hnext
      simp
    | cons next others =>
      have hlink : following (before ++ value :: distinct ++ after) value = some next := by
        rw [List.append_assoc, List.cons_append, hnext]
        exact following_split hvalue
      have hhead : ∀ head ∈ (distinct ++ after.head?.toList).head?, head = next := by
        cases distinct <;> cases after <;> simp_all
      rw [List.cons_append, List.isChain_cons]
      refine ⟨fun head hmem => by rw [hlink, hhead head hmem], ?_⟩
      simpa using hrest

end

/-! ## Lists that come round -/

/-- No address is listed twice, or the first to be listed again is the first of the list and no new
one follows. -/
def ComesRound (candidates : List α) : Prop :=
  candidates.Nodup ∨ ∃ first rest again, candidates = first :: rest ++ first :: again ∧
    (first :: rest).Nodup ∧ ∀ candidate ∈ again, candidate ∈ first :: rest

variable {candidates : List α}

/-- A list that lists an address again starts with distinct ones up to there. -/
theorem exists_first_repeat (h : ¬candidates.Nodup) : ∃ distinct again rest,
    candidates = distinct ++ again :: rest ∧ distinct.Nodup ∧ again ∈ distinct := by
  induction candidates using List.reverseRecOn with
  | nil => exact (h List.nodup_nil).elim
  | append_singleton candidates last ih =>
    by_cases hnodup : candidates.Nodup
    · refine ⟨candidates, last, [], rfl, hnodup, ?_⟩
      by_contra hlast
      refine h (List.nodup_append.mpr ⟨hnodup, List.pairwise_singleton _ last, ?_⟩)
      rintro candidate hcandidate other hother rfl
      exact hlast (List.mem_singleton.mp hother ▸ hcandidate)
    · obtain ⟨distinct, again, rest, rfl, hdistinct, hagain⟩ := ih hnodup
      exact ⟨distinct, again, rest ++ [last], by simp, hdistinct, hagain⟩

/-- Distinct addresses and what stands after them, where the last of them leads to the first. -/
theorem ComesRound.exists_ring (h : ComesRound candidates) (hne : candidates ≠ []) :
    ∃ first rest tail, candidates = first :: rest ++ tail ∧
      (∀ candidate ∈ tail, candidate ∈ first :: rest) ∧
      ((first :: rest) ++ [first]).IsChain
        fun value next => following candidates value = some next := by
  rcases h with hnodup | ⟨first, rest, again, rfl, hnodup, hagain⟩
  · obtain ⟨first, rest, rfl⟩ := List.exists_cons_of_ne_nil hne
    refine ⟨first, rest, [], by simp, by simp, ?_⟩
    have hchain := isChain_following [] [] hnodup
    simp only [List.nil_append, List.append_nil, List.head?_nil, Option.toList_none] at hchain
    rw [List.isChain_append]
    refine ⟨hchain, List.isChain_singleton first, fun last hlast next hnext => ?_⟩
    obtain rfl : first = next := by simpa using hnext
    obtain ⟨before, hbefore⟩ := List.getLast?_eq_some_iff.mp hlast
    have hfirst : last ∉ before := fun hmem => (List.nodup_append.mp (hbefore ▸ hnodup)).2.2 last
      hmem last (List.mem_singleton_self last) rfl
    rw [hbefore, following_last hfirst, ← hbefore, List.head?_cons]
  · refine ⟨first, rest, first :: again, rfl, fun candidate hcandidate => ?_, ?_⟩
    · rcases List.mem_cons.mp hcandidate with rfl | hcandidate
      · exact List.mem_cons_self
      · exact hagain candidate hcandidate
    · exact isChain_following [] (first :: again) hnodup

/-- From any address, the walk through such a list meets all of it. -/
theorem ComesRound.exists_visits (h : ComesRound candidates) (hne : candidates ≠ [])
    (selected : α) : ∃ visited, Orbit.Visits (following candidates) selected visited ∧
      visited.length ≤ candidates.length ∧ ∀ candidate ∈ candidates, candidate ∈ visited := by
  obtain ⟨first, rest, tail, hcandidates, htail, hring⟩ := h.exists_ring hne
  have hmem : ∀ candidate ∈ candidates, candidate ∈ first :: rest := by
    intro candidate hcandidate
    rw [hcandidates, List.mem_append] at hcandidate
    exact hcandidate.elim id (htail candidate)
  have hlength : (first :: rest).length ≤ candidates.length := by
    rw [hcandidates, List.length_append]
    exact Nat.le_add_right _ _
  by_cases hselected : selected ∈ first :: rest
  · obtain ⟨left, right, hsplit⟩ := List.append_of_mem hselected
    refine ⟨right ++ (left ++ [selected]), ?_, ?_, fun candidate hcandidate => ?_⟩
    · -- twice round the list, from the selected address to itself
      have htwice : ((first :: rest) ++ (first :: rest)).IsChain
          fun value next => following candidates value = some next := by
        rw [List.isChain_append] at hring ⊢
        refine ⟨hring.1, hring.1, fun last hlast next hnext => hring.2.2 last hlast next ?_⟩
        simpa using hnext
      refine htwice.infix ⟨left, right, ?_⟩
      rw [hsplit]
      simp
    · rw [hsplit] at hlength
      simp only [List.length_append, List.length_cons, List.length_nil] at hlength ⊢
      omega
    · have hfound := hmem candidate hcandidate
      rw [hsplit] at hfound
      simp only [List.mem_append, List.mem_cons] at hfound ⊢
      tauto
  · have houtside : selected ∉ candidates := fun hmember => hselected (hmem selected hmember)
    refine ⟨first :: rest, Orbit.visits_cons.mpr ⟨?_, hring.left_of_append⟩, hlength, hmem⟩
    rw [following_of_not_mem houtside, hcandidates]
    rfl

/-- A list that does not come round has an address from which another is never met. -/
theorem exists_closed (h : ¬ComesRound candidates) : ∃ again missed, ∃ kept : List α,
    missed ∈ candidates ∧ missed ∉ kept ∧ again ∈ kept ∧
      ∀ value ∈ kept, ∀ next, following candidates value = some next → next ∈ kept := by
  obtain ⟨distinct, again, rest, rfl, hdistinct, hagain⟩ :=
    exists_first_repeat fun hnodup => h (Or.inl hnodup)
  obtain ⟨before, after, rfl⟩ := List.append_of_mem hagain
  -- the walk from the address listed again up to where it is
  have hclosed : ∀ value ∈ again :: after, ∀ next,
      following (before ++ again :: after ++ again :: rest) value = some next →
        next ∈ again :: after := by
    intro value hvalue next hnext
    obtain ⟨left, right, hsplit⟩ := List.append_of_mem hvalue
    rw [hsplit] at hdistinct hnext ⊢
    have hleft : value ∉ before ++ left := by
      rw [← List.append_assoc] at hdistinct
      exact fun hmem => (List.nodup_append.mp hdistinct).2.2 value hmem value List.mem_cons_self rfl
    have hhead : again ∈ left ++ value :: right := hsplit ▸ List.mem_cons_self
    cases right with
    | nil =>
      rw [show before ++ (left ++ [value]) ++ again :: rest =
        (before ++ left) ++ value :: again :: rest by simp, following_split hleft] at hnext
      exact Option.some.inj hnext ▸ hhead
    | cons follower right =>
      rw [show before ++ (left ++ value :: follower :: right) ++ again :: rest =
        (before ++ left) ++ value :: follower :: (right ++ again :: rest) by simp,
        following_split hleft] at hnext
      exact Option.some.inj hnext ▸ by simp
  refine ⟨again, ?_⟩
  cases before with
  | nil =>
    -- the first address comes again, so one that was not there follows
    obtain ⟨missed, hmissed, hnew⟩ : ∃ missed ∈ rest, missed ∉ again :: after := by
      by_contra hall
      push Not at hall
      exact h (Or.inr ⟨again, after, rest, rfl, hdistinct, hall⟩)
    exact ⟨missed, again :: after, by simp [hmissed], hnew, List.mem_cons_self, hclosed⟩
  | cons first before =>
    -- the walk never returns to the first address
    refine ⟨first, again :: after, by simp, fun hmem => ?_, List.mem_cons_self, hclosed⟩
    exact (List.nodup_append.mp hdistinct).2.2 first List.mem_cons_self first hmem rfl

/-! ## Runs -/

namespace EndpointSelection

variable {selection : EndpointSelection α} {selected : α}

theorem nextEndpoint_eq (h : selection.selected = some selected) :
    selection.nextEndpoint = following selection.candidates selected := by
  unfold nextEndpoint
  rw [h]
  rfl

/-- What a poll does while the device reports no other endpoint. -/
theorem poll_eq {observed : Poll α}
    (hdevice : ∀ endpoint ∈ observed.deviceEndpoint, selection.selected = some endpoint)
    (hselected : selection.selected = some selected) :
    (∃ next, following selection.candidates selected = some next ∧ selection.poll observed =
      (some next, ⟨selection.candidates, .testing next observed.now⟩)) ∨
    selection.poll observed = (none, selection) := by
  have hsame : observed.deviceEndpoint.filter (fun endpoint =>
      selection.selected != some endpoint) = none := by
    rw [Option.filter_eq_none_iff]
    intro endpoint hendpoint
    simp [hdevice endpoint hendpoint]
  unfold poll
  rw [hsame, nextEndpoint_eq hselected]
  dsimp only
  split_ifs
  · cases hnext : following selection.candidates selected with
    | none => exact Or.inr rfl
    | some next => exact Or.inl ⟨next, rfl, rfl⟩
  · exact Or.inr rfl

/-- The polls of a peer that stays down walk through its list. -/
theorem visits_switched {polls : List (Poll α)} (hselected : selection.selected = some selected)
    (h : selection.StaysDown polls) :
    Orbit.Visits (following selection.candidates) selected (selection.switched polls) := by
  induction polls generalizing selection selected with
  | nil => exact Orbit.visits_nil
  | cons observed polls ih =>
    obtain ⟨hdevice, -, hpolls⟩ := h
    unfold switched
    rcases poll_eq hdevice hselected with ⟨next, hnext, hpoll⟩ | hpoll
    · rw [hpoll] at hpolls ⊢
      exact Orbit.visits_cons.mpr ⟨hnext, ih rfl hpolls⟩
    · rw [hpoll] at hpolls ⊢
      exact ih hselected hpolls

omit [DecidableEq α] in
theorem exists_down (hselected : selection.selected = some selected) :
    ∃ now, selection.status now none = .down := by
  unfold EndpointSelection.selected at hselected
  unfold status elapsed
  split at hselected
  · cases hselected
  · rename_i endpoint since hstate
    have hwaited : (since + endpointConnectionTimeout - since).toNat =
        endpointConnectionTimeout := by
      omega
    refine ⟨since + endpointConnectionTimeout, ?_⟩
    rw [hstate]
    dsimp only
    rw [hwaited]
    rfl
  · rename_i endpoint hstate
    refine ⟨0, ?_⟩
    rw [hstate]
    rfl

/-- A peer may stay down for any number of switches. -/
theorem exists_staysDown (hselected : selection.selected = some selected)
    (hne : selection.candidates ≠ []) (count : Nat) : ∃ polls, selection.StaysDown polls ∧
      (selection.switched polls).length = count := by
  induction count generalizing selection selected with
  | zero => exact ⟨[], trivial, rfl⟩
  | succ count ih =>
    obtain ⟨now, hdown⟩ := exists_down hselected
    obtain ⟨next, hnext⟩ := Option.isSome_iff_exists.mp (isSome_following hne selected)
    have hpoll : selection.poll ⟨now, none, none⟩ =
        (some next, ⟨selection.candidates, .testing next now⟩) := by
      simp [poll, hdown, nextEndpoint_eq hselected, hnext]
    obtain ⟨polls, hpolls, hlength⟩ := @ih ⟨selection.candidates, .testing next now⟩ next rfl hne
    refine ⟨⟨now, none, none⟩ :: polls, ⟨by simp, by simp [hdown], ?_⟩, ?_⟩
    · rw [hpoll]
      exact hpolls
    · rw [switched, hpoll, Option.toList_some, List.length_append, hlength]
      simp [Nat.add_comm]

theorem tries_every (h : ComesRound selection.candidates)
    (hselected : selection.selected = some selected) : selection.TriesEvery := by
  intro polls hpolls hswitched candidate hcandidate
  obtain ⟨visited, hvisits, hle, hall⟩ :=
    h.exists_visits (List.ne_nil_of_mem hcandidate) selected
  have htaken := Orbit.take_eq hvisits (visits_switched hselected hpolls) (hle.trans hswitched)
  refine List.mem_append_right _ ((List.take_subset_take_left _ hle) ?_)
  rw [htaken]
  exact hall candidate hcandidate

/-- A list's addresses are all tried within as many switches, from any selection, before and after
the list took another's place, exactly where the list comes round. -/
theorem rotation_tries_every_address_iff (candidates : List α) :
    (∀ selection : EndpointSelection α, selection.selected.isSome = true →
      (selection.candidates = candidates → selection.TriesEvery) ∧
      ∀ fallback now, (selection.replaceCandidates candidates fallback now).2.TriesEvery) ↔
    ComesRound candidates := by
  constructor
  · intro h
    by_contra hround
    obtain ⟨again, missed, kept, hmissed, hnot, hagain, hclosed⟩ := exists_closed hround
    let start : EndpointSelection α := ⟨candidates, .established again⟩
    have hstart : start.selected = some again := rfl
    obtain ⟨polls, hpolls, hlength⟩ :=
      exists_staysDown hstart (List.ne_nil_of_mem hmissed) candidates.length
    have htried := (h start rfl).1 rfl polls hpolls hlength.ge missed hmissed
    have hkept : ∀ value ∈ start.switched polls, value ∈ kept :=
      Orbit.mem_of_closed (visits_switched rfl hpolls) hagain fun value next hvalue hnext =>
        hclosed value hvalue next hnext
    rcases List.mem_append.mp htried with hfirst | hswitched
    · obtain rfl : missed = again := by simpa [hstart] using hfirst
      exact hnot hagain
    · exact hnot (hkept missed (List.mem_of_mem_take hswitched))
  · intro hround selection hselected
    obtain ⟨selected, hselected⟩ := Option.isSome_iff_exists.mp hselected
    refine ⟨fun hsame => tries_every (hsame ▸ hround) hselected, fun fallback now => ?_⟩
    have hstate : selection.state ≠ .unselected := fun hstate => by
      simp [EndpointSelection.selected, hstate] at hselected
    unfold replaceCandidates
    rw [if_neg hstate]
    exact @tries_every _ _ ⟨candidates, selection.state⟩ selected hround hselected

/-- With the first address listed again in the middle, the last is never tried. -/
theorem repeated_address_hides_the_last :
    ¬(⟨[1, 2, 1, 3], .established 1⟩ : EndpointSelection Nat).TriesEvery := by
  intro h
  let wait (n : Int) : Poll Nat := ⟨n * 16 * 10 ^ 9, none, none⟩
  have hdown : (⟨[1, 2, 1, 3], .established 1⟩ : EndpointSelection Nat).StaysDown
      [wait 0, wait 1, wait 2, wait 3] :=
    ⟨by decide, by decide +kernel, by decide, by decide +kernel, by decide, by decide +kernel,
      by decide, by decide +kernel, trivial⟩
  have hswitched : (⟨[1, 2, 1, 3], .established 1⟩ : EndpointSelection Nat).switched
      [wait 0, wait 1, wait 2, wait 3] = [2, 1, 2, 1] := by decide +kernel
  have htried := h _ hdown (by rw [hswitched]; decide) 3 (by decide)
  rw [hswitched] at htried
  exact absurd htried (by decide)

end EndpointSelection

end Ployz.Machine
