import Mathlib.Data.List.Chain
import Ployz.Config.Producers
import Ployz.Store.PlainVariables

/-!
# Typed Addresses

Another Service's private address typed into a variable's value instead of referenced. `hosts` finds
where a text types one, as two patterns match; `inPlain` answers with the value to set instead.

A value is taken as atoms, its characters and its references. The suggestion renders the value's
atoms with each typed host replaced by a reference (`inPlain_eq_ok`). It is read back as that value
exactly if no typed host stands right after a dollar, which would escape the reference
(`suggestion_reads_iff`).
-/

namespace Ployz

open Run

/-! ## Hosts -/

def isTypedChar (c : Char) : Bool := c.isAlphanum || c == '.' || c == '-'

/-- How long the port after a host is, with its colon; 0 without one. -/
def portLength : List Char → Nat
  | ':' :: rest => match (rest.takeWhile Char.isDigit).length with
    | 0 => 0
    | n + 1 => n + 2
  | _ => 0

/-- A match of the host pattern: where the host starts and ends, and where its port does. -/
structure HostMatch where
  start : Nat
  stop : Nat
  whole : Nat
deriving DecidableEq

/-- The matches of a host with its port, if any, in a text that starts `offset` characters in. -/
def hostMatches : Nat → Nat → List Char → List HostMatch
  | 0, _, _ => []
  | _, _, [] => []
  | fuel + 1, offset, c :: rest =>
    if isTypedChar c then
      let host := (c :: rest).takeWhile isTypedChar
      let after := (c :: rest).dropWhile isTypedChar
      let stop := offset + host.length
      ⟨offset, stop, stop + portLength after⟩ ::
        hostMatches fuel (stop + portLength after) (after.drop (portLength after))
    else hostMatches fuel (offset + 1) rest

def isUserInfoChar (c : Char) : Bool :=
  !(c == '/' || c == '?' || c == '#' || c == '@' || isWhitespace c)

/-- Where a URL's host starts after the scheme, past any user info, and how long it is. -/
def urlHost (text : List Char) : Option (Nat × Nat) :=
  let bare := match (text.takeWhile isTypedChar).length with
    | 0 => none
    | n + 1 => some (0, n + 1)
  match text.dropWhile isUserInfoChar with
  | '@' :: rest => match (rest.takeWhile isTypedChar).length with
    | 0 => bare
    | n + 1 => some ((text.takeWhile isUserInfoChar).length + 1, n + 1)
  | _ => bare

def urlHosts : Nat → Nat → List Char → List Nat
  | 0, _, _ => []
  | _, _, [] => []
  | fuel + 1, offset, c :: rest =>
    match (afterMarker [':', '/', '/'] (c :: rest)).bind fun after =>
      (after, ·) <$> urlHost after with
    | some (after, skip, length) =>
      (offset + 3 + skip) :: urlHosts fuel (offset + 3 + skip + length) (after.drop (skip + length))
    | none => urlHosts fuel (offset + 1) rest

def eqIgnoreAsciiCase (a b : List Char) : Bool := a.map Char.toLower == b.map Char.toLower

/-- A typed host and the Service whose address it is. -/
structure TypedHost where
  start : Nat
  stop : Nat
  other : SavedServiceIntent

/-- Where `text` types a private address of one of `others`. -/
def hosts (text : List Char) (key : String) (others : List SavedServiceIntent) : List TypedHost :=
  let hostKey := ["HOST", "HOSTNAME", "ADDR", "ADDRESS"].any fun ending =>
    ending.toList.isSuffixOf key.toList
  let urls := urlHosts text.length 0 text
  (hostMatches text.length 0 text).filterMap fun found =>
    let host := (text.drop found.start).take (found.stop - found.start)
    let bare := urls.contains found.start ||
      (hostKey && found.start == 0 && found.whole == text.length)
    (others.find? fun other =>
      eqIgnoreAsciiCase host (privateDomain other.config.privateDns).toList ||
        (bare && eqIgnoreAsciiCase host other.config.privateDns.value.toList)).map
      fun other => ⟨found.start, found.stop, other⟩

/-! ## The suggestion -/

/-- The Services `hosts` belong to, each once; none when there are none. -/
def typedServices (hosts : List TypedHost) : Except RpcError (Option (List ServiceName)) := do
  let services ← hosts.foldlM (fun services host => match ServiceName.parse host.other.slug with
    | none => throw (.corrupt "Service name")
    | some name => pure (if services.contains name then services else services ++ [name])) []
  return if services = [] then none else some services

def splitNul : List Char → List Char × List (List Char)
  | [] => ([], [])
  | c :: rest =>
    let (piece, pieces) := splitNul rest
    if c = nul then ([], piece :: pieces) else (c :: piece, pieces)

/-- `text` as parts, each NUL in it the next of `refs` again. -/
def unflatten (text : List Char) (refs : List ValuePart) : List ValuePart × List ValuePart :=
  let (piece, pieces) := splitNul text
  pieces.foldl (fun (parts, refs) piece =>
    (parts ++ refs.head?.toList ++ [.text (String.ofList piece)], refs.tail))
    ([.text (String.ofList piece)], refs)

def ValuePart.flat : ValuePart → List Char
  | .text value => value.toList
  | .ref .. => [nul]

/-- The reference to a Service's private address. -/
def addressOf (other : SavedServiceIntent) : ValuePart :=
  .ref (.service other.lineageId) privateDomainKey

/-- What is referenced so far: its parts, the references left and where the text left starts. -/
structure Referencing where
  parts : List ValuePart
  refs : List ValuePart
  start : Nat

/-- The text before a host, then a reference in its place. -/
def referenceHost (text : List Char) (state : Referencing) (host : TypedHost) : Referencing :=
  let own := unflatten ((text.drop state.start).take (host.start - state.start)) state.refs
  ⟨state.parts ++ own.1 ++ [addressOf host.other], own.2, host.stop⟩

def referenceRest (text : List Char) (state : Referencing) : List ValuePart :=
  state.parts ++ (unflatten (text.drop state.start) state.refs).1

def referenceHosts (text : List Char) (hosts : List TypedHost) (refs : List ValuePart) :
    List ValuePart :=
  referenceRest text (hosts.foldl (referenceHost text) ⟨[], refs, 0⟩)

/-- What to set instead of a value with Typed Addresses: the value with each address referenced, or
nothing to show, since a secret can't hold a reference. -/
inductive Instead
  | reference (value : String)
  | withheld
deriving DecidableEq

/-- The Typed Addresses in one new value: whose they are, and what to set instead. -/
structure Typed where
  services : List ServiceName
  instead : Instead
deriving DecidableEq

/-- What a plain value of `key`, as `parts`, types of `others`' private addresses. -/
def inPlain (parts : List ValuePart) (key : String) (others : List SavedServiceIntent)
    (names : ServiceNames) : Except RpcError (Option Typed) := do
  let text := parts.flatMap ValuePart.flat
  let found := hosts text key others
  match ← typedServices found with
  | none => return none
  | some services => return some ⟨services,
      .reference (renderVariableParts (referenceHosts text found (parts.filter ValuePart.isRef))
        names)⟩

/-- What a sealed value of `key` types of `others`' private addresses. -/
def inSealed (plaintext : List Char) (key : String) (others : List SavedServiceIntent) :
    Except RpcError (Option Typed) :=
  (fun services => services.map (⟨·, .withheld⟩)) <$> typedServices (hosts plaintext key others)

/-! ## Values as atoms -/

/-- A character of a value, or a reference in it. -/
inductive Atom
  | char (c : Char)
  | ref (owner : ValuePartOwner) (key : String)

namespace Atom

/-- As the text `inPlain` searches has it. -/
def flat : Atom → Char
  | char c => c
  | ref .. => nul

def part? : Atom → Option ValuePart
  | char _ => none
  | ref owner key => some (.ref owner key)

end Atom

def ValuePart.atoms : ValuePart → List Atom
  | .text value => value.toList.map .char
  | .ref owner key => [.ref owner key]

/-- The pieces of a value and the text after them; `pending` stands before it. -/
def gather (pending : List Char) : List Atom → List Piece × List Char
  | [] => ([], pending)
  | .char c :: rest => gather (pending ++ [c]) rest
  | .ref owner key :: rest => (⟨pending, owner, key⟩ :: (gather [] rest).1, (gather [] rest).2)

/-- The value of atoms: its runs of characters as text, its references between them. -/
def ofAtoms (atoms : List Atom) : List ValuePart := partsOf (gather [] atoms).1 (gather [] atoms).2

/-- A value from `start` on, each host in it replaced by a reference to its Service's private
address. -/
def retype : Nat → List TypedHost → List Atom → List Atom
  | _, [], atoms => atoms
  | start, host :: hosts, atoms =>
    atoms.take (host.start - start) ++
      .ref (.service host.other.lineageId) privateDomainKey ::
        retype host.stop hosts (atoms.drop (host.stop - start))

/-- The parts of atoms with a text before, between and after the references, empty or not. -/
def fullParts (pending : List Char) : List Atom → List ValuePart
  | [] => [.text (String.ofList pending)]
  | .char c :: rest => fullParts (pending ++ [c]) rest
  | .ref owner key :: rest =>
    .text (String.ofList pending) :: .ref owner key :: fullParts [] rest

variable {key : String}

section Atoms

variable {names : ServiceNames}

theorem gather_text (pending text : List Char) (rest : List Atom) :
    gather pending (text.map .char ++ rest) = gather (pending ++ text) rest := by
  induction text generalizing pending with
  | nil => simp
  | cons c text ih => simp [gather, ih]

theorem atoms_textPart (text : List Char) :
    (textPart text).flatMap ValuePart.atoms = text.map .char := by
  unfold textPart
  split_ifs with h
  · rw [h]
    rfl
  · simp [ValuePart.atoms]

theorem gather_partsOf (pieces : List Piece) (last : List Char) :
    gather [] ((partsOf pieces last).flatMap ValuePart.atoms) = (pieces, last) := by
  induction pieces with
  | nil =>
    have h := gather_text [] last []
    rw [List.append_nil] at h
    rw [partsOf, List.flatMap_nil, List.nil_append, atoms_textPart, h]
    rfl
  | cons piece pieces ih =>
    have hatoms : (partsOf (piece :: pieces) last).flatMap ValuePart.atoms =
        piece.text.map .char ++
          .ref piece.owner piece.key :: (partsOf pieces last).flatMap ValuePart.atoms := by
      simp [partsOf, Piece.parts, atoms_textPart, ValuePart.atoms]
    rw [hatoms, gather_text, gather, ih]
    rfl

theorem render_fullParts (pending : List Char) (atoms : List Atom) :
    (fullParts pending atoms).flatMap (renderPart names) =
      (gather pending atoms).1.flatMap (Piece.render names) ++ escape (gather pending atoms).2 := by
  induction atoms generalizing pending with
  | nil => simp [fullParts, gather, renderPart]
  | cons atom rest ih =>
    cases atom with
    | char c => exact ih _
    | ref owner key =>
      rw [fullParts, List.flatMap_cons, List.flatMap_cons, ih, gather]
      simp [Piece.render, renderPart]

theorem fullParts_append (pending : List Char) (a : List Atom) (owner : ValuePartOwner)
    (key : String) (b : List Atom) : fullParts pending (a ++ .ref owner key :: b) =
      fullParts pending a ++ .ref owner key :: fullParts [] b := by
  induction a generalizing pending with
  | nil => rfl
  | cons atom a ih =>
    cases atom with
    | char c => exact ih _
    | ref o k => simp [fullParts, ih]

theorem ref_mem_of_gather {pending : List Char} {atoms : List Atom} {piece : Piece}
    (h : piece ∈ (gather pending atoms).1) : .ref piece.owner piece.key ∈ atoms := by
  induction atoms generalizing pending with
  | nil => cases h
  | cons atom rest ih =>
    cases atom with
    | char c => exact List.mem_cons_of_mem _ (ih h)
    | ref owner key =>
      rcases List.mem_cons.mp h with rfl | h
      · exact List.mem_cons_self
      · exact List.mem_cons_of_mem _ (ih h)

/-- The texts of the pieces are made of the atoms' characters. -/
theorem char_mem_of_gather {c : Char} {pending : List Char} {atoms : List Atom}
    (hpending : c ∉ pending) (h : .char c ∉ atoms) :
    (∀ piece ∈ (gather pending atoms).1, c ∉ piece.text) ∧ c ∉ (gather pending atoms).2 := by
  induction atoms generalizing pending with
  | nil => exact ⟨by simp [gather], hpending⟩
  | cons atom rest ih =>
    rw [List.mem_cons, not_or] at h
    cases atom with
    | char d => exact ih (by simpa [hpending] using h.1) h.2
    | ref owner key =>
      have hnil : c ∉ ([] : List Char) := List.not_mem_nil
      obtain ⟨hpieces, hlast⟩ := ih hnil h.2
      refine ⟨?_, hlast⟩
      intro piece hpiece
      rcases List.mem_cons.mp hpiece with rfl | hpiece
      · exact hpending
      · exact hpieces piece hpiece

/-! ## A dollar before a reference -/

/-- No reference stands right after a dollar. -/
def Undollared (atoms : List Atom) : Prop :=
  atoms.IsChain fun a b => a = .char '$' → b.part? = none

theorem undollared_chars (text : List Char) : Undollared (text.map .char) := by
  induction text with
  | nil => exact .nil
  | cons c text ih =>
    cases text with
    | nil => exact .singleton _
    | cons d text => exact List.isChain_cons_cons.mpr ⟨fun _ => rfl, ih⟩

theorem undollared_ref {a b : List Atom} {owner : ValuePartOwner} :
    Undollared (a ++ .ref owner key :: b) ↔
      Undollared a ∧ a.getLast? ≠ some (.char '$') ∧ Undollared b := by
  have hcons : Undollared (.ref owner key :: b) ↔ Undollared b := by
    cases b with
    | nil => exact ⟨fun _ => .nil, fun _ => .singleton _⟩
    | cons atom b => exact ⟨fun h => (List.isChain_cons_cons.mp h).2,
        fun h => List.isChain_cons_cons.mpr ⟨(fun heq => by cases heq), h⟩⟩
  rw [Undollared, List.isChain_append]
  constructor
  · rintro ⟨ha, hb, hlast⟩
    refine ⟨ha, fun hdollar => ?_, hcons.mp hb⟩
    have hnone := hlast _ hdollar _ rfl rfl
    cases hnone
  · rintro ⟨ha, hdollar, hb⟩
    refine ⟨ha, hcons.mpr hb, ?_⟩
    rintro x hx y - rfl
    exact absurd hx hdollar

theorem undollared_iff (pending : List Char) (atoms : List Atom) :
    (∀ piece ∈ (gather pending atoms).1, piece.dollar = false) ↔
      Undollared (pending.map .char ++ atoms) := by
  induction atoms generalizing pending with
  | nil =>
    rw [List.append_nil]
    exact ⟨fun _ => undollared_chars pending, fun _ piece hpiece => by cases hpiece⟩
  | cons atom rest ih =>
    cases atom with
    | char c => rw [gather, ih, List.map_append, List.append_assoc]; rfl
    | ref owner key =>
      have hlast : Piece.dollar ⟨pending, owner, key⟩ = false ↔
          (pending.map Atom.char).getLast? ≠ some (.char '$') := by
        simp [Piece.dollar, List.getLast?_map]
      rw [gather, List.forall_mem_cons, undollared_ref, ih, hlast]
      simp only [undollared_chars, true_and]
      rfl

end Atoms

/-! ## The suggestion as atoms -/

/-- The hosts stand one after another from `start` on, each of characters of the host pattern. -/
def InOrder (text : List Char) : Nat → List TypedHost → Prop
  | _, [] => True
  | start, host :: hosts => start ≤ host.start ∧ host.start < host.stop ∧ host.stop ≤ text.length ∧
      (∀ c ∈ (text.take host.stop).drop host.start, isTypedChar c = true) ∧
      InOrder text host.stop hosts

section Suggestion

variable {names : ServiceNames} {text : List Char} {atoms : List Atom}

theorem InOrder.mono {start start' : Nat} (hle : start' ≤ start) {hosts : List TypedHost}
    (h : InOrder text start hosts) : InOrder text start' hosts := by
  cases hosts with
  | nil => trivial
  | cons host hosts => exact ⟨by have := h.1; omega, h.2⟩

theorem portLength_le (after : List Char) : portLength after ≤ after.length := by
  unfold portLength
  split
  · next rest =>
    have hle := (List.takeWhile_sublist (l := rest) Char.isDigit).length_le
    split
    · exact Nat.zero_le _
    · simp only [List.length_cons]
      omega
  · exact Nat.zero_le _

/-- The matches that are kept stand one after another. -/
theorem inOrder_filterMap (keep : HostMatch → Option SavedServiceIntent) (fuel offset : Nat)
    (hle : offset ≤ text.length) :
    InOrder text offset ((hostMatches fuel offset (text.drop offset)).filterMap fun found =>
      (keep found).map fun other => ⟨found.start, found.stop, other⟩) := by
  induction fuel generalizing offset with
  | zero => trivial
  | succ fuel ih =>
    cases hrest : text.drop offset with
    | nil => trivial
    | cons c rest =>
      have hlength : (c :: rest).length = text.length - offset := by rw [← hrest, List.length_drop]
      rw [hostMatches]
      split_ifs with hc
      · have hsplit := List.takeWhile_append_dropWhile (p := isTypedChar) (l := c :: rest)
        have hchars : ∀ d ∈ (c :: rest).takeWhile isTypedChar, isTypedChar d = true :=
          fun d hd => List.mem_takeWhile_imp hd
        have hpos : 0 < ((c :: rest).takeWhile isTypedChar).length := by
          rw [List.takeWhile_cons_of_pos hc]
          exact Nat.succ_pos _
        generalize (c :: rest).takeWhile isTypedChar = host at hsplit hchars hpos ⊢
        generalize (c :: rest).dropWhile isTypedChar = after at hsplit ⊢
        rw [← hsplit] at hrest hlength
        rw [List.length_append] at hlength
        have hport := portLength_le after
        have hdrop : text.drop (offset + host.length + portLength after) =
            after.drop (portLength after) := by
          rw [Nat.add_assoc, ← List.drop_drop, hrest, ← List.drop_drop, List.drop_left]
        have hnext := ih (offset + host.length + portLength after) (by omega)
        rw [hdrop] at hnext
        dsimp only
        rw [List.filterMap_cons]
        cases keep ⟨offset, offset + host.length, offset + host.length + portLength after⟩ with
        | none => exact hnext.mono (by omega)
        | some other =>
          have hslice : (text.take (offset + host.length)).drop offset = host := by
            rw [List.drop_take, hrest, Nat.add_sub_cancel_left, List.take_left]
          refine ⟨le_rfl, by dsimp only; omega, by dsimp only; omega, ?_,
            hnext.mono (by dsimp only; omega)⟩
          dsimp only
          rw [hslice]
          exact hchars
      · have hdrop : text.drop (offset + 1) = rest := by
          rw [← List.drop_drop, hrest]
          rfl
        have hnext := ih (offset + 1) (by simp at hlength; omega)
        rw [hdrop] at hnext
        exact hnext.mono (by omega)

theorem hosts_inOrder (text : List Char) (key : String) (others : List SavedServiceIntent) :
    InOrder text 0 (hosts text key others) :=
  inOrder_filterMap _ _ 0 (Nat.zero_le _)

/-- Text cut out of a value is the value's atoms again, with the references that are next. -/
theorem unflatten_atoms (h : .char nul ∉ atoms) (more : List ValuePart) :
    unflatten (atoms.map Atom.flat) (atoms.filterMap Atom.part? ++ more) =
      (fullParts [] atoms, more) := by
  suffices hfold : ∀ (pending : List Char) (before : List ValuePart),
      (splitNul (atoms.map Atom.flat)).2.foldl (fun (parts, refs) piece =>
        (parts ++ refs.head?.toList ++ [.text (String.ofList piece)], refs.tail))
        (before ++ [.text (String.ofList (pending ++ (splitNul (atoms.map Atom.flat)).1))],
          atoms.filterMap Atom.part? ++ more) = (before ++ fullParts pending atoms, more) from
    hfold [] []
  induction atoms with
  | nil =>
    intro pending before
    simp [splitNul, fullParts]
  | cons atom rest ih =>
    rw [List.mem_cons, not_or] at h
    intro pending before
    cases atom with
    | char c =>
      have hc : c ≠ nul := by
        rintro rfl
        exact h.1 rfl
      have hnext := ih h.2 (pending ++ [c]) before
      simp only [List.append_assoc, List.singleton_append] at hnext
      have hparts : (Atom.char c :: rest).filterMap Atom.part? = rest.filterMap Atom.part? := rfl
      rw [hparts]
      simpa [splitNul, Atom.flat, hc, fullParts] using hnext
    | ref owner key =>
      have hnext := ih h.2 [] (before ++ [.text (String.ofList pending), .ref owner key])
      simpa [splitNul, Atom.flat, Atom.part?, fullParts] using hnext

theorem part?_of_typed {slice : List Atom} (h : ∀ c ∈ slice.map Atom.flat, isTypedChar c = true) :
    slice.filterMap Atom.part? = [] := by
  rw [List.filterMap_eq_nil_iff]
  intro atom hatom
  cases atom with
  | char c => rfl
  | ref owner key =>
    have hnul := h nul (List.mem_map.mpr ⟨_, hatom, rfl⟩)
    exact absurd hnul (by decide)

variable {found : List TypedHost}

/-- The parts with each host referenced are those of the retyped atoms. -/
theorem referenceHosts_eq (hnul : .char nul ∉ atoms) (h : InOrder (atoms.map Atom.flat) 0 found) :
    referenceHosts (atoms.map Atom.flat) found (atoms.filterMap Atom.part?) =
      fullParts [] (retype 0 found atoms) := by
  suffices hfold : ∀ (found : List TypedHost) (parts : List ValuePart) (start : Nat),
      InOrder (atoms.map Atom.flat) start found →
      referenceRest (atoms.map Atom.flat) (found.foldl (referenceHost (atoms.map Atom.flat))
        ⟨parts, (atoms.drop start).filterMap Atom.part?, start⟩) =
      parts ++ fullParts [] (retype start found (atoms.drop start)) from hfold found [] 0 h
  intro found
  induction found with
  | nil =>
    intro parts start _
    have hdrop : .char nul ∉ atoms.drop start := fun hmem => hnul (List.mem_of_mem_drop hmem)
    have hrest := unflatten_atoms hdrop []
    rw [List.append_nil] at hrest
    simp only [List.foldl_nil, referenceRest, ← List.map_drop, hrest, retype]
  | cons host found ih =>
    intro parts start ⟨hstart, hlt, hle, htyped, hnext⟩
    rw [List.length_map] at hle
    have htake : .char nul ∉ (atoms.drop start).take (host.start - start) :=
      fun hmem => hnul (List.mem_of_mem_drop (List.mem_of_mem_take hmem))
    -- What is left of the references after the text before the host is what stands after the host.
    have hrefs : (atoms.drop start).filterMap Atom.part? =
        ((atoms.drop start).take (host.start - start)).filterMap Atom.part? ++
          (atoms.drop host.stop).filterMap Atom.part? := by
      have hslice : (atoms.take host.stop).drop host.start ++ atoms.drop host.stop =
          atoms.drop host.start := by
        have happend := congrArg (List.drop host.start) (List.take_append_drop host.stop atoms)
        rw [List.drop_append_of_le_length (by rw [List.length_take]; omega)] at happend
        exact happend
      have hdrop : (atoms.drop start).drop (host.start - start) = atoms.drop host.start := by
        rw [List.drop_drop]
        congr 1
        omega
      rw [← List.map_take, ← List.map_drop] at htyped
      have hhost : (atoms.drop host.start).filterMap Atom.part? =
          (atoms.drop host.stop).filterMap Atom.part? := by
        rw [← hslice, List.filterMap_append, part?_of_typed htyped, List.nil_append]
      rw [← hhost, ← hdrop, ← List.filterMap_append, List.take_append_drop]
    have hretype : (atoms.drop start).drop (host.stop - start) = atoms.drop host.stop := by
      rw [List.drop_drop]
      congr 1
      omega
    have hhost : referenceHost (atoms.map Atom.flat)
        ⟨parts, (atoms.drop start).filterMap Atom.part?, start⟩ host =
        ⟨parts ++ fullParts [] ((atoms.drop start).take (host.start - start)) ++
          [addressOf host.other], (atoms.drop host.stop).filterMap Atom.part?, host.stop⟩ := by
      simp only [referenceHost, hrefs, ← List.map_drop, ← List.map_take, unflatten_atoms htake]
    rw [List.foldl_cons, hhost, ih _ _ hnext, retype, fullParts_append, hretype]
    simp [addressOf]

/-- Retyping leaves no other characters, and adds only references to private addresses. -/
theorem mem_retype {start : Nat} {atom : Atom} (h : atom ∈ retype start found atoms) :
    atom ∈ atoms ∨
      ∃ host ∈ found, atom = .ref (.service host.other.lineageId) privateDomainKey := by
  induction found generalizing start atoms with
  | nil => exact .inl h
  | cons host found ih =>
    rcases List.mem_append.mp h with h | h
    · exact .inl (List.mem_of_mem_take h)
    · rcases List.mem_cons.mp h with rfl | h
      · exact .inr ⟨host, List.mem_cons_self, rfl⟩
      · rcases ih h with h | ⟨other, hother, rfl⟩
        · exact .inl (List.mem_of_mem_drop h)
        · exact .inr ⟨other, List.mem_cons_of_mem _ hother, rfl⟩

/-- No host of a list stands right after a dollar. -/
def NoneAfterDollar (text : List Char) (found : List TypedHost) : Prop :=
  ∀ host ∈ found, (text.take host.start).getLast? ≠ some '$'

instance (text : List Char) (found : List TypedHost) : Decidable (NoneAfterDollar text found) :=
  inferInstanceAs (Decidable (∀ host ∈ found, _))

theorem getLast?_take_of_lt {α : Type*} {l : List α} {n : Nat} (hpos : 0 < n) (hle : n ≤ l.length) :
    (l.take n).getLast? = l[n - 1]? := by
  have hlt : n - 1 < l.length := by omega
  rw [List.getLast?_take, if_neg (by omega), List.getElem?_eq_getElem hlt]
  rfl

theorem flat_eq_dollar {atom : Atom} : atom.flat = '$' ↔ atom = .char '$' := by
  cases atom with
  | char c => exact ⟨congrArg Atom.char, Atom.char.inj⟩
  | ref owner key =>
    have hnul : nul ≠ '$' := by decide
    exact ⟨fun h => absurd h hnul, fun h => by cases h⟩

/-- Right before a host stands a dollar of the value, or the host before it. -/
theorem getLast?_slice {start stop : Nat} (hle : start ≤ stop) (hstop : stop ≤ atoms.length)
    (hbefore : ((atoms.map Atom.flat).take start).getLast? ≠ some '$') :
    ((atoms.drop start).take (stop - start)).getLast? ≠ some (.char '$') ↔
      ((atoms.map Atom.flat).take stop).getLast? ≠ some '$' := by
  rcases Nat.eq_or_lt_of_le hle with rfl | hlt
  · rw [Nat.sub_self, List.take_zero]
    exact ⟨fun _ => hbefore, fun _ h => by cases h⟩
  · have hslice : ((atoms.drop start).take (stop - start)).getLast? = atoms[stop - 1]? := by
      rw [getLast?_take_of_lt (by omega) (by rw [List.length_drop]; omega), List.getElem?_drop]
      congr 1
      omega
    rw [hslice, getLast?_take_of_lt (by omega) (by rw [List.length_map]; omega), List.getElem?_map,
      List.getElem?_eq_getElem (by omega : stop - 1 < atoms.length)]
    simp only [Option.map_some, ne_eq, Option.some.injEq, flat_eq_dollar]

/-- Retyped, a value has no reference right after a dollar exactly if no host stood there. -/
theorem undollared_retype {start : Nat} (horder : InOrder (atoms.map Atom.flat) start found)
    (hplain : Undollared atoms) (hbefore : ((atoms.map Atom.flat).take start).getLast? ≠ some '$') :
    Undollared (retype start found (atoms.drop start)) ↔
      NoneAfterDollar (atoms.map Atom.flat) found := by
  have hdrop : Undollared (atoms.drop start) := hplain.drop start
  induction found generalizing start with
  | nil => exact ⟨(fun _ host hhost => by cases hhost), fun _ => hdrop⟩
  | cons host found ih =>
    obtain ⟨hstart, hlt, hle, htyped, hnext⟩ := horder
    have hlast : ((atoms.map Atom.flat).take host.stop).getLast? ≠ some '$' := by
      intro h
      have hmem : '$' ∈ ((atoms.map Atom.flat).take host.stop).drop host.start := by
        apply List.mem_of_getLast?
        rw [List.getLast?_drop, if_neg (by rw [List.length_take]; omega), h]
      exact absurd (htyped _ hmem) (by decide)
    have hretype : (atoms.drop start).drop (host.stop - start) = atoms.drop host.stop := by
      rw [List.drop_drop]
      congr 1
      omega
    rw [List.length_map] at hle
    have hrest := ih hnext hlast (hplain.drop _)
    rw [retype, undollared_ref, hretype, getLast?_slice hstart (by omega) hbefore]
    unfold NoneAfterDollar at hrest ⊢
    rw [List.forall_mem_cons]
    exact ⟨fun h => ⟨h.2.1, hrest.mp h.2.2⟩, fun h => ⟨hdrop.take _, h.1, hrest.mpr h.2⟩⟩

theorem flatMap_flat (parts : List ValuePart) :
    parts.flatMap ValuePart.flat = (parts.flatMap ValuePart.atoms).map Atom.flat := by
  induction parts with
  | nil => rfl
  | cons part parts ih =>
    rw [List.flatMap_cons, List.flatMap_cons, List.map_append, ih]
    cases part with
    | text value => simp [ValuePart.flat, ValuePart.atoms, Function.comp_def, Atom.flat]
    | ref owner key => rfl

theorem filter_isRef (parts : List ValuePart) :
    parts.filter ValuePart.isRef = (parts.flatMap ValuePart.atoms).filterMap Atom.part? := by
  induction parts with
  | nil => rfl
  | cons part parts ih =>
    rw [List.flatMap_cons, List.filterMap_append, ← ih]
    cases part with
    | text value =>
      have hnone : (ValuePart.text value).atoms.filterMap Atom.part? = [] := by
        rw [List.filterMap_eq_nil_iff]
        intro atom hatom
        obtain ⟨c, -, rfl⟩ := List.mem_map.mp hatom
        rfl
      rw [hnone]
      rfl
    | ref owner key => rfl

variable {others : List SavedServiceIntent}

/-- The suggestion renders the value with each typed host replaced by a reference. -/
theorem inPlain_eq_ok {parts : List ValuePart} {typed : Typed}
    (hnul : .char nul ∉ parts.flatMap ValuePart.atoms)
    (h : inPlain parts key others names = .ok (some typed)) :
    typed.instead = .reference (renderVariableParts (ofAtoms (retype 0
      (hosts (parts.flatMap ValuePart.flat) key others) (parts.flatMap ValuePart.atoms)))
        names) := by
  obtain ⟨services, -, h⟩ := bind_eq_ok.mp h
  cases services with
  | none => cases h
  | some services =>
    cases h
    have horder := hosts_inOrder (parts.flatMap ValuePart.flat) key others
    rw [flatMap_flat] at horder ⊢
    rw [filter_isRef, referenceHosts_eq hnul horder, renderVariableParts, renderVariableParts,
      render_fullParts, ofAtoms, render_partsOf]

theorem mem_hosts {host : TypedHost} (h : host ∈ hosts text key others) : host.other ∈ others := by
  obtain ⟨found, -, h⟩ := List.mem_filterMap.mp h
  obtain ⟨other, hother, rfl⟩ := Option.map_eq_some_iff.mp h
  exact List.mem_of_find?_eq_some hother

theorem readsBack_address {lineage name : String} (h : (lineage, name) ∈ names) :
    ReadsBack names (.service lineage) privateDomainKey := by
  refine ⟨by decide, List.all_eq_true.mp (by decide), ?_⟩
  rintro other heq
  obtain rfl := ValuePartOwner.service.inj heq
  exact ⟨name, h⟩

theorem atoms_partsOf (pieces : List Piece) (last : List Char) :
    (partsOf pieces last).flatMap ValuePart.atoms =
      pieces.flatMap (fun piece => piece.text.map .char ++ [.ref piece.owner piece.key]) ++
        last.map .char := by
  rw [partsOf, List.flatMap_append, atoms_textPart]
  congr 1
  induction pieces with
  | nil => rfl
  | cons piece pieces ih =>
    rw [List.flatMap_cons, List.flatMap_append, ih, List.flatMap_cons]
    simp [Piece.parts, atoms_textPart, ValuePart.atoms]

/-- The atoms of plain pieces: references that are read back, none right after a dollar, and no
NUL. -/
theorem plain_atoms {pieces : List Piece} {last : List Char}
    (hplain : ∀ piece ∈ pieces, piece.Plain names) (hlast : nul ∉ last)
    (hatoms : atoms = (partsOf pieces last).flatMap ValuePart.atoms) :
    (∀ owner key, .ref owner key ∈ atoms → ReadsBack names owner key) ∧ .char nul ∉ atoms ∧
      Undollared atoms := by
  have hund : Undollared atoms := by
    have hiff := undollared_iff [] atoms
    rw [hatoms, gather_partsOf] at hiff
    rw [hatoms]
    exact hiff.mp fun piece hpiece => (hplain piece hpiece).dollar
  rw [atoms_partsOf] at hatoms
  subst hatoms
  refine ⟨?_, ?_, hund⟩
  · intro owner key hmem
    rcases List.mem_append.mp hmem with hmem | hmem
    · obtain ⟨piece, hpiece, hmem⟩ := List.mem_flatMap.mp hmem
      obtain ⟨rfl, rfl⟩ : owner = piece.owner ∧ key = piece.key := by simpa using hmem
      exact (hplain piece hpiece).reads
    · simp at hmem
  · intro hmem
    rcases List.mem_append.mp hmem with hmem | hmem
    · obtain ⟨piece, hpiece, hmem⟩ := List.mem_flatMap.mp hmem
      exact (hplain piece hpiece).nul (by simpa using hmem)
    · exact hlast (by simpa using hmem)

/-- Rendered with its hosts replaced, a value is accepted as it is exactly if no host stood right
after a dollar. -/
theorem retyped_reads_iff {plainFingerprint : List ValuePart → String} (hnames : names.Safe)
    (hrefs : ∀ owner key, .ref owner key ∈ atoms → ReadsBack names owner key)
    (hnul : .char nul ∉ atoms) (hund : Undollared atoms)
    (horder : InOrder (atoms.map Atom.flat) 0 found)
    (hnamed : ∀ host ∈ found, ∃ name, (host.other.lineageId, name) ∈ names) :
    textParts plainFingerprint key (renderVariableParts (ofAtoms (retype 0 found atoms)) names)
      names =
        .ok (ofAtoms (retype 0 found atoms), plainFingerprint (ofAtoms (retype 0 found atoms))) ↔
      NoneAfterDollar (atoms.map Atom.flat) found := by
  have hretyped := undollared_retype horder hund (by simp)
  rw [List.drop_zero] at hretyped
  have hmem : ∀ atom ∈ retype 0 found atoms, atom ∈ atoms ∨
      ∃ host ∈ found, atom = .ref (.service host.other.lineageId) privateDomainKey :=
    fun atom h => mem_retype h
  rw [← hretyped]
  clear hretyped
  generalize retype 0 found atoms = retyped at hmem ⊢
  have hreads : ∀ piece ∈ (gather [] retyped).1, ReadsBack names piece.owner piece.key := by
    intro piece hpiece
    rcases hmem _ (ref_mem_of_gather hpiece) with hown | ⟨host, hhost, heq⟩
    · exact hrefs _ _ hown
    · obtain ⟨name, hname⟩ := hnamed host hhost
      obtain ⟨howner, hkey⟩ := Atom.ref.inj heq
      rw [howner, hkey]
      exact readsBack_address hname
  have hchars : .char nul ∉ retyped := by
    intro h
    rcases hmem _ h with hown | ⟨host, -, heq⟩
    · exact hnul hown
    · cases heq
  obtain ⟨htexts, hrest⟩ := char_mem_of_gather List.not_mem_nil hchars
  have hrender := nul_not_mem_render hnames (fun piece hp => ⟨hreads piece hp, htexts piece hp⟩)
    hrest
  have hdollar := undollared_iff [] retyped
  rw [List.map_nil, List.nil_append] at hdollar
  rw [← hdollar, ← parse_render_iff hnames hreads (gather [] retyped).2, textParts_eq_ok]
  exact ⟨fun h => h.2.1, fun h => ⟨hrender, h, rfl⟩⟩

/-- For an accepted value and other Services that have names, the suggested value is accepted as the
value with each typed host replaced by a reference to its Service's private address, exactly if no
typed host stands right after a dollar. -/
theorem suggestion_reads_iff {plainFingerprint : List ValuePart → String} (hnames : names.Safe)
    {key value : String} {parts : List ValuePart} {fingerprint : String}
    (haccepted : textParts plainFingerprint key value names = .ok (parts, fingerprint))
    {others : List SavedServiceIntent}
    (hothers : ∀ other ∈ others, ∃ name, (other.lineageId, name) ∈ names)
    {services : List ServiceName} {suggested : String}
    (h : inPlain parts key others names = .ok (some ⟨services, .reference suggested⟩)) :
    let found := hosts (parts.flatMap ValuePart.flat) key others
    let expected := ofAtoms (retype 0 found (parts.flatMap ValuePart.atoms))
    textParts plainFingerprint key suggested names =
        .ok (expected, plainFingerprint expected) ↔
      NoneAfterDollar (parts.flatMap ValuePart.flat) found := by
  obtain ⟨pieces, last, hparts, hplain, hlast⟩ := pieces_of_textParts haccepted
  obtain ⟨hrefs, hnul, hund⟩ := plain_atoms hplain hlast
    (congrArg (List.flatMap ValuePart.atoms) hparts)
  have horder := hosts_inOrder (parts.flatMap ValuePart.flat) key others
  have hnamed : ∀ host ∈ hosts (parts.flatMap ValuePart.flat) key others,
      ∃ name, (host.other.lineageId, name) ∈ names := fun host hhost => hothers _ (mem_hosts hhost)
  obtain rfl := Instead.reference.inj (inPlain_eq_ok hnul h)
  dsimp only
  generalize hosts (parts.flatMap ValuePart.flat) key others = found at horder hnamed ⊢
  rw [flatMap_flat] at horder ⊢
  exact retyped_reads_iff hnames hrefs hnul hund horder hnamed

/-! ## A database's address -/

def database : SavedServiceIntent := .unset "db-id" "db-lineage" ⟨"db", by decide⟩

def databaseNames : ServiceNames := [("db-lineage", "db")]

theorem databaseNames_safe : databaseNames.Safe where
  lineages := by decide
  names := by decide
  first := by decide
  chars := by
    intro pair hpair
    obtain rfl := List.mem_singleton.mp hpair
    exact List.all_eq_true.mp (by decide)

/-- A typed address, and the reference suggested for it. -/
theorem database_suggestion :
    textParts (fun _ => "") "URL" "http://$\x7b\x7b db.PLOYZ_PRIVATE_DOMAIN \x7d\x7d/app"
      databaseNames =
      .ok ([.text "http://", .ref (.service "db-lineage") privateDomainKey, .text "/app"], "") := by
  have haccepted : textParts (fun _ => "") "URL" "http://db.internal/app" databaseNames =
      .ok ([.text "http://db.internal/app"], "") := by decide +kernel
  have hplain : inPlain [.text "http://db.internal/app"] "URL" [database] databaseNames =
      .ok (some ⟨[⟨"db", by decide⟩],
        .reference "http://$\x7b\x7b db.PLOYZ_PRIVATE_DOMAIN \x7d\x7d/app"⟩) := by
    decide +kernel
  have hothers : ∀ other ∈ [database], ∃ name, (other.lineageId, name) ∈ databaseNames := by
    intro other hother
    rw [List.mem_singleton.mp hother]
    exact ⟨"db", by decide⟩
  have hreads := suggestion_reads_iff databaseNames_safe haccepted hothers hplain
  have hexpected : ofAtoms (retype 0 (hosts ([ValuePart.text "http://db.internal/app"].flatMap
      ValuePart.flat) "URL" [database]) ([ValuePart.text "http://db.internal/app"].flatMap
      ValuePart.atoms)) =
      [.text "http://", .ref (.service "db-lineage") privateDomainKey, .text "/app"] := by
    decide +kernel
  rw [← hexpected]
  exact hreads.mpr (by decide +kernel)

/-- After a dollar the suggested reference is read as escaped text. -/
theorem dollar_escapes_suggestion :
    textParts (fun _ => "") "URL" "http://$db.internal" databaseNames =
        .ok ([.text "http://$db.internal"], "") ∧
      inPlain [.text "http://$db.internal"] "URL" [database] databaseNames =
        .ok (some ⟨[⟨"db", by decide⟩],
          .reference "http://$$\x7b\x7b db.PLOYZ_PRIVATE_DOMAIN \x7d\x7d"⟩) ∧
      textParts (fun _ => "") "URL" "http://$$\x7b\x7b db.PLOYZ_PRIVATE_DOMAIN \x7d\x7d"
          databaseNames =
        .ok ([.text "http://$\x7b\x7b db.PLOYZ_PRIVATE_DOMAIN \x7d\x7d"], "") := by
  decide +kernel

end Suggestion

end Ployz
