import Ployz.Config.Text
import Ployz.Config.Environment

/-!
# Template text

`parseVariableTemplate` reads a value as its author writes it: `${{ KEY }}` and `${{ name.KEY }}`
are references, `$${{` is a literal `${{`, anything malformed stays text. `renderVariableParts`
writes the parts back, with each literal `${{` escaped.

A value is taken as pieces, each a text and the reference after it, and the text after the last
reference. Rendered pieces are read back as they were (`run_pieces`), unless a text ends in a dollar
right before its reference: there the reference is read as escaped text (`run_dollar`). What the
scanner returns has no such piece (`parse_pieces`).
-/

namespace Ployz

/-! ## Parsing -/

/-- The text after a marker it starts with: `str::strip_prefix`. -/
def afterMarker : List Char → List Char → Option (List Char)
  | [], text => some text
  | _ :: _, [] => none
  | m :: marker, c :: text => if m = c then afterMarker marker text else none

/-- Whether `}}` stands in the text. -/
def hasClosing : List Char → Bool
  | '}' :: '}' :: _ => true
  | _ :: rest => hasClosing rest
  | [] => false

def isIdentifierChar (extra c : Char) : Bool := c.isAlphanum || c == '_' || c == extra

/-- Split off the leading run of ASCII alphanumerics, `_` and `extra`. -/
def identifier (extra : Char) (text : List Char) : List Char × List Char :=
  (text.takeWhile (isIdentifierChar extra), text.dropWhile (isIdentifierChar extra))

def isKey (key : List Char) : Bool :=
  key.head?.any (fun c => c.isAlpha || c == '_') && !key.contains '-'

/-- The end of a token: the owner's name, the key and the text after the token. -/
def closeToken (owner : Option (List Char)) (key after : List Char) :
    Option (Option (List Char) × List Char × List Char) := do
  let after ← afterMarker ['}', '}'] (after.dropWhile isWhitespace)
  if isKey key then some (owner, key, after) else none

/-- `[name.]KEY }}` after a `${{`, with optional whitespace inside the braces. -/
def templateToken (text : List Char) : Option (Option (List Char) × List Char × List Char) :=
  let (first, after) := identifier '-' (text.dropWhile isWhitespace)
  match afterMarker ['.'] after with
  | some after =>
    if first.head?.any Char.isAlphanum then
      let (key, after) := identifier '_' after
      closeToken (some first) key after
    else none
  | none => closeToken none first after

structure Scan where
  parts : List ValuePart
  unresolved : List String
  unterminated : Bool
  pending : List Char

def textPart (text : List Char) : List ValuePart :=
  if text = [] then [] else [.text (String.ofList text)]

def Scan.push (state : Scan) (text : List Char) : Scan :=
  { state with pending := state.pending ++ text }

def Scan.reference (state : Scan) (owner : ValuePartOwner) (key : List Char) : Scan :=
  { state with
    parts := state.parts ++ textPart state.pending ++ [.ref owner (String.ofList key)]
    pending := [] }

/-- Whose variable a token reads. -/
def tokenOwner (lineage : String → Option String) : Option (List Char) → Option ValuePartOwner
  | none => some .self
  | some name => (lineage (String.ofList name)).map .service

/-- One turn of the scanner: what it has and the text left. -/
def turn (lineage : String → Option String) (state : Scan) (rest : List Char) : Scan × List Char :=
  match afterMarker ['$', '$', '{', '{'] rest with
  | some after => (state.push ['$', '{', '{'], after)
  | none => match afterMarker ['$', '{', '{'] rest with
    | none => (state.push (rest.take 1), rest.drop 1)
    | some after => match templateToken after with
      | none => ({ state.push ['$', '{', '{'] with
          unterminated := state.unterminated || !hasClosing after }, after)
      | some (owner, key, left) => match tokenOwner lineage owner with
        | some owner => (state.reference owner key, left)
        | none => ({ state.push (rest.take (rest.length - left.length)) with
            unresolved := state.unresolved ++ owner.toList.map String.ofList }, left)

/-- The turns until no text is left; each takes at least one character. -/
def scan (lineage : String → Option String) : Nat → List Char → Scan → Scan
  | _, [], state => state
  | 0, _ :: _, state => state
  | fuel + 1, c :: rest, state =>
    scan lineage fuel (turn lineage state (c :: rest)).2 (turn lineage state (c :: rest)).1

/-- A display template parsed into parts, and the Service names that matched no producer. -/
structure ParsedTemplate where
  parts : List ValuePart
  unresolved : List String
  unterminated : Bool

def parseVariableTemplate (text : String) (lineage : String → Option String) : ParsedTemplate :=
  let final := scan lineage text.toList.length text.toList ⟨[], [], false, []⟩
  ⟨final.parts ++ textPart final.pending, final.unresolved, final.unterminated⟩

/-! ## Rendering -/

abbrev ServiceNames := List (String × String)

/-- Each `${{` made `$${{`. -/
def escape : List Char → List Char
  | '$' :: '{' :: '{' :: rest => '$' :: '$' :: '{' :: '{' :: escape rest
  | c :: rest => c :: escape rest
  | [] => []

/-- What stands between the braces of a reference. -/
def referenceText (slugs : ServiceNames) (owner : ValuePartOwner) (key : String) : List Char :=
  match owner with
  | .self => key.toList
  | .service lineage => ((slugs.lookup lineage).getD "<deleted>").toList ++ '.' :: key.toList

def renderPart (slugs : ServiceNames) : ValuePart → List Char
  | .text value => escape value.toList
  | .ref owner key =>
    ['$', '{', '{', ' '] ++ referenceText slugs owner key ++ [' ', '}', '}']

/-- Structured references with current owner slugs, literal template syntax escaped. -/
def renderVariableParts (parts : List ValuePart) (slugs : ServiceNames) : String :=
  String.ofList (parts.flatMap (renderPart slugs))

/-! ## The scanner's turns -/

variable {text after key left rest : List Char} {owner : ValuePartOwner} {extra c : Char}

theorem afterMarker_eq_some {marker : List Char} :
    afterMarker marker text = some after ↔ text = marker ++ after := by
  induction marker generalizing text with
  | nil => simp [afterMarker]
  | cons m marker ih =>
    cases text with
    | nil => simp [afterMarker]
    | cons c text =>
      rw [afterMarker]
      split_ifs with h
      · rw [ih, h, List.cons_append, List.cons_inj_right]
      · simp [Ne.symm h]

theorem afterMarker_append (marker after : List Char) :
    afterMarker marker (marker ++ after) = some after := afterMarker_eq_some.mpr rfl

section Turns

variable {lineage : String → Option String} {state : Scan}

theorem suffix_of_closeToken {owner owner' : Option (List Char)} {key' : List Char}
    (h : closeToken owner key after = some (owner', key', left)) :
    owner' = owner ∧ key' = key ∧ isKey key = true ∧
      ∃ blank, after = blank ++ '}' :: '}' :: left := by
  obtain ⟨rest, hrest, h⟩ := Option.bind_eq_some_iff.mp h
  split_ifs at h with hkey
  obtain ⟨rfl, rfl, rfl⟩ := by simpa using h
  refine ⟨rfl, rfl, hkey, after.takeWhile isWhitespace, ?_⟩
  have hsplit := List.takeWhile_append_dropWhile (p := isWhitespace) (l := after)
  rw [afterMarker_eq_some.mp hrest] at hsplit
  exact hsplit.symm

theorem identifier_eq {first : List Char} (h : identifier extra text = (first, after)) :
    text = first ++ after ∧ ∀ c ∈ first, isIdentifierChar extra c = true := by
  obtain ⟨rfl, rfl⟩ := Prod.mk.inj h
  exact ⟨List.takeWhile_append_dropWhile.symm, fun c hc => List.mem_takeWhile_imp hc⟩

/-- A token ends in `}}`, its key is made of letters, digits and `_`. -/
theorem templateToken_eq_some {owner : Option (List Char)}
    (h : templateToken text = some (owner, key, left)) :
    (∃ token, text = token ++ '}' :: '}' :: left) ∧ isKey key = true ∧
      ∀ c ∈ key, isIdentifierChar '_' c = true := by
  have hblank := (List.takeWhile_append_dropWhile (p := isWhitespace) (l := text)).symm
  unfold templateToken at h
  generalize text.takeWhile isWhitespace = blank at hblank
  generalize text.dropWhile isWhitespace = body at hblank h
  subst hblank
  cases hbody : identifier '-' body with
  | mk first after =>
    obtain ⟨rfl, hfirst⟩ := identifier_eq hbody
    rw [hbody] at h
    dsimp only at h
    split at h
    · next after' hdot =>
      obtain rfl := afterMarker_eq_some.mp hdot
      cases hafter : identifier '_' after' with
      | mk key' rest =>
        obtain ⟨rfl, hchars⟩ := identifier_eq hafter
        rw [hafter] at h
        split_ifs at h
        obtain ⟨rfl, rfl, hkey, space, rfl⟩ := suffix_of_closeToken h
        exact ⟨⟨blank ++ first ++ '.' :: key ++ space, by simp⟩, hkey, hchars⟩
    · obtain ⟨rfl, rfl, hkey, space, rfl⟩ := suffix_of_closeToken h
      refine ⟨⟨blank ++ key ++ space, by simp⟩, hkey, fun c hc => ?_⟩
      have hdash : c ≠ '-' := by
        rintro rfl
        have hcontains := (Bool.and_eq_true_iff.mp hkey).2
        simp [hc] at hcontains
      simpa [isIdentifierChar, hdash] using hfirst c hc

/-- What one turn can do. The text before the text left is what it took. -/
inductive Turned (lineage : String → Option String) (state : Scan) :
    List Char → Scan × List Char → Prop
  | escaped (after : List Char) :
      Turned lineage state ('$' :: '$' :: '{' :: '{' :: after) (state.push ['$', '{', '{'], after)
  | char (c : Char) (after : List Char)
      (hescaped : ¬ ['$', '$', '{', '{'] <+: c :: after)
        (hopen : ¬ ['$', '{', '{'] <+: c :: after) :
      Turned lineage state (c :: after) (state.push [c], after)
  | malformed (after : List Char) (unterminated : Bool) :
      Turned lineage state ('$' :: '{' :: '{' :: after)
        ({ state.push ['$', '{', '{'] with unterminated }, after)
  | reference (token left key : List Char) (name : Option (List Char)) (owner : ValuePartOwner)
      (htoken : templateToken (token ++ '}' :: '}' :: left) = some (name, key, left))
      (howner : tokenOwner lineage name = some owner) :
      Turned lineage state ('$' :: '{' :: '{' :: (token ++ '}' :: '}' :: left))
        (state.reference owner key, left)
  | unresolved (token left : List Char) (names : List String) :
      Turned lineage state ('$' :: '{' :: '{' :: (token ++ '}' :: '}' :: left))
        ({ state.push ('$' :: '{' :: '{' :: (token ++ ['}', '}'])) with
          unresolved := state.unresolved ++ names }, left)

theorem not_isPrefix_of_afterMarker {marker : List Char} (h : afterMarker marker text = none) :
    ¬ marker <+: text := by
  rintro ⟨after, rfl⟩
  rw [afterMarker_append] at h
  cases h

theorem turned (lineage : String → Option String) (state : Scan) (c : Char) (rest : List Char) :
    Turned lineage state (c :: rest) (turn lineage state (c :: rest)) := by
  unfold turn
  split
  · next after h =>
    rw [afterMarker_eq_some.mp h]
    exact .escaped after
  · next hescaped =>
    split
    · next hopen =>
      exact .char c rest (not_isPrefix_of_afterMarker hescaped) (not_isPrefix_of_afterMarker hopen)
    · next after h =>
      rw [afterMarker_eq_some.mp h]
      split
      · exact .malformed after _
      · next name key left htoken =>
        obtain ⟨⟨token, rfl⟩, -, -⟩ := templateToken_eq_some htoken
        split
        · next owner howner => exact .reference token left key name owner htoken howner
        · have htook : (['$', '{', '{'] ++ (token ++ '}' :: '}' :: left)).take
              ((['$', '{', '{'] ++ (token ++ '}' :: '}' :: left)).length - left.length) =
                '$' :: '{' :: '{' :: (token ++ ['}', '}']) := by
            have hsplit : ['$', '{', '{'] ++ (token ++ '}' :: '}' :: left) =
                ('$' :: '{' :: '{' :: (token ++ ['}', '}'])) ++ left := by simp
            rw [hsplit, List.length_append, Nat.add_sub_cancel, List.take_left']
            rfl
          rw [htook]
          exact .unresolved token left _

theorem turn_length (lineage : String → Option String) (state : Scan) (c : Char)
    (rest : List Char) :
    (turn lineage state (c :: rest)).2.length < (c :: rest).length := by
  have h := turned lineage state c rest
  generalize turn lineage state (c :: rest) = next at h ⊢
  generalize c :: rest = text at h ⊢
  cases h with
  | escaped after | char c after | malformed after unterminated =>
    simp only [List.length_cons]; omega
  | reference token left | unresolved token left =>
    simp only [List.length_cons, List.length_append]
    omega

/-! ## A whole scan -/

def run (lineage : String → Option String) (text : List Char) (state : Scan) : Scan :=
  scan lineage text.length text state

theorem scan_eq_run {fuel : Nat} (h : text.length ≤ fuel) :
    scan lineage fuel text state = run lineage text state := by
  induction fuel using Nat.strong_induction_on generalizing text state with
  | _ fuel ih =>
    cases text with
    | nil => cases fuel <;> rfl
    | cons c rest =>
      have hturn := turn_length lineage state c rest
      rw [List.length_cons] at h hturn
      obtain ⟨fuel, rfl⟩ : ∃ n, fuel = n + 1 := ⟨fuel - 1, by omega⟩
      rw [run, List.length_cons, scan, scan]
      rw [ih fuel (by omega) (by omega)]
      by_cases hlt : rest.length < fuel + 1
      · exact (ih rest.length hlt (by omega)).symm
      · omega

theorem run_cons : run lineage (c :: rest) state =
    run lineage (turn lineage state (c :: rest)).2 (turn lineage state (c :: rest)).1 := by
  have hturn := turn_length lineage state c rest
  rw [List.length_cons] at hturn
  rw [run, List.length_cons, scan, scan_eq_run (by omega)]

/-- Nothing is lost of a scan from its text on: `P` of the state and the text left holds at the
end if every turn keeps it. -/
theorem run_invariant {P : Scan → List Char → Prop}
    (step : ∀ state text next, text ≠ [] → Turned lineage state text next → P state text →
      P next.1 next.2) (h : P state text) : P (run lineage text state) [] := by
  induction hlength : text.length using Nat.strong_induction_on generalizing text state with
  | _ n ih =>
    cases text with
    | nil => exact h
    | cons c rest =>
      rw [run_cons]
      have hturn := turn_length lineage state c rest
      rw [hlength] at hturn
      exact ih _ hturn (step _ _ _ (by simp) (turned lineage state c rest) h) rfl

/-! ## Escaped text -/

theorem escape_opening (text : List Char) :
    escape ('$' :: '{' :: '{' :: text) = '$' :: '$' :: '{' :: '{' :: escape text := by rw [escape]

theorem escape_char (h : ¬ ['$', '{', '{'] <+: c :: text) :
    escape (c :: text) = c :: escape text := by
  rw [escape]
  rintro after rfl rfl
  exact h ⟨after, rfl⟩

/-- A character of escaped text that is no dollar starts the text itself. -/
theorem head_of_escape (hc : c ≠ '$') (hrest : rest.head? ≠ some c)
    (h : c :: after = escape text ++ rest) :
    ∃ tail, text = c :: tail ∧ after = escape tail ++ rest := by
  cases text with
  | nil =>
    rw [escape, List.nil_append] at h
    rw [← h] at hrest
    exact absurd rfl hrest
  | cons d tail =>
    by_cases hopen : ['$', '{', '{'] <+: d :: tail
    · obtain ⟨left, hopen⟩ := hopen
      rw [← hopen] at h
      rw [show ['$', '{', '{'] ++ left = '$' :: '{' :: '{' :: left from rfl, escape_opening] at h
      exact absurd (List.cons.inj h).1 hc
    · rw [escape_char hopen] at h
      obtain ⟨rfl, hafter⟩ := List.cons.inj h
      exact ⟨tail, rfl, hafter⟩

theorem braces_of_escape (hrest : rest.head? ≠ some '{')
    (h : ['{', '{'] <+: escape text ++ rest) : ['{', '{'] <+: text := by
  obtain ⟨after, h⟩ := h
  obtain ⟨tail, rfl, h'⟩ := head_of_escape (by decide) hrest h
  obtain ⟨tail', rfl, -⟩ := head_of_escape (by decide) hrest h'
  exact ⟨tail', rfl⟩

/-- Escaped text never starts with `${{`. -/
theorem eq_nil_of_escape (hrest : rest.head? ≠ some '{')
    (h : ['$', '{', '{'] <+: escape text ++ rest) : text = [] := by
  cases text with
  | nil => rfl
  | cons c tail =>
    by_cases hopen : ['$', '{', '{'] <+: c :: tail
    · obtain ⟨left, hopen⟩ := hopen
      rw [← hopen, show ['$', '{', '{'] ++ left = '$' :: '{' :: '{' :: left from rfl,
        escape_opening] at h
      simp at h
    · rw [escape_char hopen, List.cons_append] at h
      obtain ⟨hc, h⟩ := List.cons_prefix_cons.mp h
      have hbraces := braces_of_escape hrest h
      exact absurd (List.cons_prefix_cons.mpr ⟨hc, hbraces⟩) hopen

theorem turn_char (hescaped : ¬ ['$', '$', '{', '{'] <+: c :: rest)
    (hopen : ¬ ['$', '{', '{'] <+: c :: rest) :
    turn lineage state (c :: rest) = (state.push [c], rest) := by
  have hnone : ∀ marker : List Char, ¬ marker <+: c :: rest →
      afterMarker marker (c :: rest) = none := by
    intro marker hmarker
    rw [Option.eq_none_iff_forall_ne_some]
    intro after h
    exact hmarker ⟨after, (afterMarker_eq_some.mp h).symm⟩
  rw [turn, hnone _ hescaped, hnone _ hopen]
  rfl

theorem turn_escaped (rest : List Char) :
    turn lineage state ('$' :: '$' :: '{' :: '{' :: rest) = (state.push ['$', '{', '{'], rest) := by
  simp [turn, afterMarker]

theorem push_push (state : Scan) (a b : List Char) :
    (state.push a).push b = state.push (a ++ b) := by
  simp [Scan.push]

/-- Escaped text is read as the text it is of. What follows does not start with `{`, nor with
`${{` after a dollar. -/
theorem run_text (hrest : rest.head? ≠ some '{')
    (hdollar : text.getLast? = some '$' → ¬ ['$', '{', '{'] <+: rest) :
    run lineage (escape text ++ rest) state = run lineage rest (state.push text) := by
  induction hlength : text.length using Nat.strong_induction_on generalizing text state with
  | _ n ih =>
    cases text with
    | nil => simp [escape, Scan.push]
    | cons c tail =>
      by_cases hopen : ['$', '{', '{'] <+: c :: tail
      · obtain ⟨left, hopen⟩ := hopen
        rw [show ['$', '{', '{'] ++ left = '$' :: '{' :: '{' :: left from rfl] at hopen
        rw [← hopen] at hdollar hlength ⊢
        have hlast : left.getLast? = some '$' → ¬ ['$', '{', '{'] <+: rest := by
          intro h
          apply hdollar
          cases left with
          | nil => cases h
          | cons d left => simpa using h
        rw [escape_opening]
        simp only [List.cons_append]
        rw [run_cons, turn_escaped, ih left.length (by simp at hlength; omega) hlast rfl, push_push]
        rfl
      · have hnext : ¬ ['$', '{', '{'] <+: c :: (escape tail ++ rest) := by
          intro h
          obtain ⟨hc, h⟩ := List.cons_prefix_cons.mp h
          exact hopen (List.cons_prefix_cons.mpr ⟨hc, braces_of_escape hrest h⟩)
        have hescaped : ¬ ['$', '$', '{', '{'] <+: c :: (escape tail ++ rest) := by
          intro h
          obtain ⟨rfl, hopening⟩ := List.cons_prefix_cons.mp h
          obtain rfl := eq_nil_of_escape hrest hopening
          exact hdollar rfl hopening
        have hlast : tail.getLast? = some '$' → ¬ ['$', '{', '{'] <+: rest := by
          intro h
          apply hdollar
          cases tail with
          | nil => cases h
          | cons d tail => simpa using h
        rw [escape_char hopen, List.cons_append, run_cons, turn_char hescaped hnext,
          ih tail.length (by simp at hlength; omega) hlast rfl, push_push]
        rfl

end Turns

/-! ## References -/

/-- Distinct lineages have distinct names that a reference can hold. -/
structure ServiceNames.Safe (slugs : ServiceNames) : Prop where
  lineages : (slugs.map (·.1)).Nodup
  names : (slugs.map (·.2)).Nodup
  first : ∀ pair ∈ slugs, pair.2.toList.head?.any Char.isAlphanum = true
  chars : ∀ pair ∈ slugs, ∀ c ∈ pair.2.toList, isIdentifierChar '-' c = true

def lineageOf (slugs : ServiceNames) (name : String) : Option String :=
  (slugs.find? (·.2 == name)).map (·.1)

/-- A reference that its rendered text is read as. -/
structure ReadsBack (slugs : ServiceNames) (owner : ValuePartOwner) (key : String) : Prop where
  isKey : isKey key.toList = true
  chars : ∀ c ∈ key.toList, isIdentifierChar '_' c = true
  named : ∀ lineage, owner = .service lineage → ∃ name, (lineage, name) ∈ slugs

section References

variable {slugs : ServiceNames}

variable {name : String}

theorem ServiceNames.Safe.lookup (h : slugs.Safe) {lineage : String}
    (hmem : (lineage, name) ∈ slugs) :
    slugs.lookup lineage = some name := by
  have hnodup := h.lineages
  clear h
  induction slugs with
  | nil => cases hmem
  | cons pair rest ih =>
    rw [List.map_cons, List.nodup_cons] at hnodup
    rcases List.mem_cons.mp hmem with rfl | hmem
    · exact List.lookup_cons_self
    · have hne : lineage ≠ pair.1 := by
        rintro rfl
        exact hnodup.1 (List.mem_map.mpr ⟨_, hmem, rfl⟩)
      rw [List.lookup_cons, beq_false_of_ne hne]
      exact ih hmem hnodup.2

theorem ServiceNames.Safe.lineageOf (h : slugs.Safe) {lineage : String}
    (hmem : (lineage, name) ∈ slugs) : lineageOf slugs name = some lineage := by
  have hnodup := h.names
  unfold Ployz.lineageOf
  clear h
  induction slugs with
  | nil => cases hmem
  | cons pair rest ih =>
    rw [List.map_cons, List.nodup_cons] at hnodup
    rw [List.find?_cons]
    rcases List.mem_cons.mp hmem with rfl | hmem
    · simp
    · have hne : pair.2 ≠ name := by
        rintro rfl
        exact hnodup.1 (List.mem_map.mpr ⟨_, hmem, rfl⟩)
      rw [beq_false_of_ne hne]
      exact ih hmem hnodup.2

theorem mem_of_lineageOf {lineage : String} (h : lineageOf slugs name = some lineage) :
    (lineage, name) ∈ slugs := by
  obtain ⟨pair, hpair, rfl⟩ := Option.map_eq_some_iff.mp h
  have hname : pair.2 = name := by simpa using List.find?_some hpair
  exact hname ▸ List.mem_of_find?_eq_some hpair

theorem isWhitespace_of_identifier (hextra : isWhitespace extra = false)
    (h : isIdentifierChar extra c = true) : isWhitespace c = false := by
  have halnum : c.isAlphanum = true → isWhitespace c = false := by
    intro h
    unfold Char.isAlphanum Char.isAlpha Char.isUpper Char.isLower Char.isDigit at h
    simp only [Bool.or_eq_true, Bool.and_eq_true, decide_eq_true_eq, ge_iff_le, ← Char.le_def,
      char_le_iff] at h
    have hbounds : 'A'.toNat = 65 ∧ 'Z'.toNat = 90 ∧ 'a'.toNat = 97 ∧ 'z'.toNat = 122 ∧
        '0'.toNat = 48 ∧ '9'.toNat = 57 := by decide
    exact isWhitespace_eq_false (by omega)
  simp only [isIdentifierChar, Bool.or_eq_true, beq_iff_eq] at h
  rcases h with (h | rfl) | rfl
  · exact halnum h
  · decide
  · exact hextra

theorem identifier_append {first : List Char} (h : ∀ c ∈ first, isIdentifierChar extra c = true)
    (hrest : rest.head?.any (isIdentifierChar extra) = false) :
    identifier extra (first ++ rest) = (first, rest) := by
  rw [identifier, List.takeWhile_append_of_pos h, List.dropWhile_append_of_pos h]
  cases rest with
  | nil => simp
  | cons c rest =>
    have hc : isIdentifierChar extra c = false := by simpa using hrest
    simp [hc]

theorem dropWhile_blank (h : text.head?.any isWhitespace = false) :
    (' ' :: text).dropWhile isWhitespace = text := by
  have hblank : isWhitespace ' ' = true := by decide
  rw [List.dropWhile_cons_of_pos hblank]
  cases text with
  | nil => rfl
  | cons c text =>
    have hc : isWhitespace c = false := by simpa using h
    simp [hc]

theorem closeToken_blank {owner : Option (List Char)} (hkey : isKey key = true) (left : List Char) :
    closeToken owner key (' ' :: '}' :: '}' :: left) = some (owner, key, left) := by
  rw [closeToken, dropWhile_blank rfl]
  simp [afterMarker, hkey]

theorem head_key (h : isKey key = true) (hchars : ∀ c ∈ key, isIdentifierChar '_' c = true)
    (rest : List Char) : (key ++ rest).head?.any isWhitespace = false := by
  cases key with
  | nil => cases h
  | cons c key => simpa using isWhitespace_of_identifier (by decide) (hchars c List.mem_cons_self)

/-- A reference is read back from its text. -/
theorem templateToken_reference (hslugs : slugs.Safe) {key : String}
    (h : ReadsBack slugs owner key) (left : List Char) :
    ∃ name, templateToken (' ' :: (referenceText slugs owner key ++ ' ' :: '}' :: '}' :: left)) =
      some (name, key.toList, left) ∧ tokenOwner (lineageOf slugs) name = some owner := by
  have hdash : ∀ c ∈ key.toList, isIdentifierChar '-' c = true := by
    intro c hc
    have hchar := h.chars c hc
    simp only [isIdentifierChar, Bool.or_eq_true] at hchar ⊢
    tauto
  cases owner with
  | self =>
    refine ⟨none, ?_, rfl⟩
    rw [templateToken, referenceText, dropWhile_blank (head_key h.isKey h.chars _),
      identifier_append hdash rfl]
    exact closeToken_blank h.isKey left
  | service lineage =>
    obtain ⟨name, hname⟩ := h.named lineage rfl
    have hchars := hslugs.chars _ hname
    have hhead : (name.toList ++ '.' :: (key.toList ++ ' ' :: '}' :: '}' :: left)).head?.any
        isWhitespace = false := by
      have hfirst := hslugs.first _ hname
      dsimp only at hfirst hchars
      cases hlist : name.toList with
      | nil => rw [hlist] at hfirst; cases hfirst
      | cons c rest =>
        rw [hlist] at hchars
        simpa using isWhitespace_of_identifier (by decide) (hchars c List.mem_cons_self)
    refine ⟨some name.toList, ?_, ?_⟩
    · rw [templateToken, referenceText, hslugs.lookup hname, Option.getD_some, List.append_assoc,
        List.cons_append, dropWhile_blank hhead, identifier_append hchars rfl]
      simp only [afterMarker, if_true]
      rw [if_pos (hslugs.first _ hname), identifier_append h.chars rfl]
      exact closeToken_blank h.isKey left
    · rw [tokenOwner, String.ofList_toList, hslugs.lineageOf hname]
      rfl

end References

/-! ## Pieces -/

/-- A reference and the text before it. -/
structure Piece where
  text : List Char
  owner : ValuePartOwner
  key : String

namespace Piece

def parts (piece : Piece) : List ValuePart := textPart piece.text ++ [.ref piece.owner piece.key]

/-- The text ends in a dollar, right before the reference. -/
def dollar (piece : Piece) : Bool := piece.text.getLast? == some '$'

def render (slugs : ServiceNames) (piece : Piece) : List Char :=
  escape piece.text ++ renderPart slugs (.ref piece.owner piece.key)

end Piece

/-- The parts of pieces and the text after them. -/
def partsOf (pieces : List Piece) (last : List Char) : List ValuePart :=
  pieces.flatMap Piece.parts ++ textPart last

section Pieces

variable {slugs : ServiceNames} {state : Scan}

theorem render_textPart (text : List Char) :
    (textPart text).flatMap (renderPart slugs) = escape text := by
  unfold textPart
  split_ifs with h
  · rw [h]
    rfl
  · simp [renderPart]

theorem render_partsOf (pieces : List Piece) (last : List Char) :
    (partsOf pieces last).flatMap (renderPart slugs) =
      pieces.flatMap (Piece.render slugs) ++ escape last := by
  induction pieces with
  | nil => exact render_textPart last
  | cons piece pieces ih =>
    simp only [partsOf, List.flatMap_cons, List.append_assoc, List.flatMap_append, Piece.parts,
      Piece.render, render_textPart] at ih ⊢
    rw [ih]
    simp

theorem render_reference (owner : ValuePartOwner) (key : String) (left : List Char) :
    renderPart slugs (.ref owner key) ++ left =
      '$' :: '{' :: '{' :: ' ' :: (referenceText slugs owner key ++ ' ' :: '}' :: '}' :: left) := by
  simp [renderPart]

theorem turn_reference (hslugs : slugs.Safe) {key : String} (h : ReadsBack slugs owner key)
    (state : Scan) (left : List Char) :
    turn (lineageOf slugs) state (renderPart slugs (.ref owner key) ++ left) =
      (state.reference owner key.toList, left) := by
  obtain ⟨name, htoken, howner⟩ := templateToken_reference hslugs h left
  rw [render_reference]
  simp [turn, afterMarker, htoken, howner]

/-- A piece is read as it was. -/
theorem run_piece (hslugs : slugs.Safe) {piece : Piece}
    (h : ReadsBack slugs piece.owner piece.key) (hdollar : piece.dollar = false)
    (left : List Char) :
    run (lineageOf slugs) (piece.render slugs ++ left) state =
      run (lineageOf slugs) left
        ((state.push piece.text).reference piece.owner piece.key.toList) := by
  have hlast : piece.text.getLast? ≠ some '$' := by simpa [Piece.dollar] using hdollar
  rw [Piece.render, List.append_assoc, run_text (by simp [renderPart]) (fun h => absurd h hlast)]
  have hturn := turn_reference hslugs h (state.push piece.text) left
  rw [render_reference] at hturn ⊢
  rw [run_cons, hturn]

theorem run_escape {lineage : String → Option String} (last : List Char) (state : Scan) :
    run lineage (escape last) state = state.push last := by
  rw [← List.append_nil (escape last), run_text (by simp) (by simp)]
  rfl

variable {pieces : List Piece}

/-- Pieces are read as they were, where no text ends in a dollar right before its reference. -/
theorem run_pieces (hslugs : slugs.Safe)
    (h : ∀ piece ∈ pieces, ReadsBack slugs piece.owner piece.key ∧ piece.dollar = false)
    (last : List Char) (state : Scan) (hpending : state.pending = []) :
    run (lineageOf slugs) (pieces.flatMap (Piece.render slugs) ++ escape last) state =
      { state with parts := state.parts ++ pieces.flatMap Piece.parts, pending := last } := by
  induction pieces generalizing state with
  | nil =>
    simp [run_escape, Scan.push, hpending]
  | cons piece pieces ih =>
    obtain ⟨hreads, hdollar⟩ := h piece List.mem_cons_self
    rw [List.flatMap_cons, List.append_assoc, run_piece hslugs hreads hdollar,
      ih (fun p hp => h p (List.mem_cons_of_mem _ hp)) _ rfl]
    simp [Scan.reference, Scan.push, hpending, Piece.parts]

theorem parse_render (hslugs : slugs.Safe)
    (h : ∀ piece ∈ pieces, ReadsBack slugs piece.owner piece.key ∧ piece.dollar = false)
    (last : List Char) :
    parseVariableTemplate (renderVariableParts (partsOf pieces last) slugs) (lineageOf slugs) =
      ⟨partsOf pieces last, [], false⟩ := by
  have hrun := run_pieces hslugs h last ⟨[], [], false, []⟩ rfl
  rw [run] at hrun
  rw [parseVariableTemplate, renderVariableParts, String.toList_ofList, render_partsOf, hrun]
  rfl

/-! ## A dollar before a reference -/

def ValuePart.isRef : ValuePart → Bool
  | .text _ => false
  | .ref .. => true

theorem escape_append_dollar (text : List Char) :
    escape (text ++ ['$']) = escape text ++ ['$'] := by
  induction text using escape.induct with
  | case1 text ih => simp [escape_opening, ih]
  | case2 c text hopen ih =>
    have hplain : ¬ ['$', '{', '{'] <+: c :: text := by
      rintro ⟨after, h⟩
      obtain ⟨rfl, rfl⟩ := List.cons.inj h
      exact hopen after rfl rfl
    have hdollar : ¬ ['$', '{', '{'] <+: c :: (text ++ ['$']) := by
      intro h
      obtain ⟨hc, h⟩ := List.cons_prefix_cons.mp h
      rcases List.prefix_concat_iff.mp h with h | h
      · have hlast := congrArg List.getLast? h
        simp at hlast
      · exact hplain (List.cons_prefix_cons.mpr ⟨hc, h⟩)
    rw [List.cons_append, escape_char hdollar, escape_char hplain, ih, List.cons_append]
  | case3 => rfl

theorem run_plain {lineage : String → Option String} (h : '$' ∉ text) :
    run lineage (text ++ rest) state = run lineage rest (state.push text) := by
  induction text generalizing state with
  | nil => simp [Scan.push]
  | cons c text ih =>
    rw [List.mem_cons, not_or] at h
    have hc : ∀ marker : List Char, ¬ '$' :: marker <+: c :: (text ++ rest) :=
      fun marker hmarker => h.1 (List.cons_prefix_cons.mp hmarker).1
    rw [List.cons_append, run_cons, turn_char (hc _) (hc _), ih h.2, push_push]
    rfl

theorem dollar_not_mem_reference (hslugs : slugs.Safe) {key : String}
    (h : ReadsBack slugs owner key) : '$' ∉ referenceText slugs owner key := by
  have hkey : '$' ∉ key.toList := fun hmem => absurd (h.chars _ hmem) (by decide)
  cases owner with
  | self => exact hkey
  | service lineage =>
    obtain ⟨name, hname⟩ := h.named lineage rfl
    rw [referenceText, hslugs.lookup hname, Option.getD_some, List.mem_append, List.mem_cons]
    rintro (hmem | hmem | hmem)
    · exact absurd (hslugs.chars _ hname _ hmem) (by decide)
    · exact absurd hmem (by decide)
    · exact hkey hmem

/-- After a dollar a reference is read as escaped text. -/
theorem run_dollar (hslugs : slugs.Safe) {piece : Piece}
    (h : ReadsBack slugs piece.owner piece.key) (hdollar : piece.dollar = true) (state : Scan)
    (left : List Char) :
    ∃ text, run (lineageOf slugs) (piece.render slugs ++ left) state =
      run (lineageOf slugs) left (state.push text) := by
  have hlast : piece.text.getLast? = some '$' := by simpa [Piece.dollar] using hdollar
  obtain ⟨text, htext⟩ := List.getLast?_eq_some_iff.mp hlast
  let token : List Char := ' ' :: (referenceText slugs piece.owner piece.key ++ [' ', '}', '}'])
  have htoken : '$' ∉ token := by
    simpa [token] using dollar_not_mem_reference hslugs h
  have hrest : piece.render slugs ++ left =
      escape text ++ '$' :: '$' :: '{' :: '{' :: (token ++ left) := by
    rw [Piece.render, htext, escape_append_dollar, List.append_assoc, List.append_assoc,
      render_reference]
    simp [token]
  refine ⟨text ++ (['$', '{', '{'] ++ token), ?_⟩
  rw [hrest, run_text (by simp) (by simp), run_cons, turn_escaped, run_plain htoken, push_push,
    push_push]

theorem countP_textPart (text : List Char) : (textPart text).countP ValuePart.isRef = 0 := by
  unfold textPart
  split_ifs <;> rfl

/-- Of rendered pieces only the references after no dollar are read. -/
theorem countP_run (hslugs : slugs.Safe)
    (h : ∀ piece ∈ pieces, ReadsBack slugs piece.owner piece.key) (last : List Char)
    (state : Scan) :
    (run (lineageOf slugs) (pieces.flatMap (Piece.render slugs) ++ escape last) state).parts.countP
        ValuePart.isRef =
      state.parts.countP ValuePart.isRef + pieces.countP (!·.dollar) := by
  induction pieces generalizing state with
  | nil =>
    simp [run_escape, Scan.push]
  | cons piece pieces ih =>
    have hreads := h piece List.mem_cons_self
    have ih := ih fun p hp => h p (List.mem_cons_of_mem _ hp)
    rw [List.flatMap_cons, List.append_assoc, List.countP_cons]
    cases hdollar : piece.dollar with
    | true =>
      obtain ⟨text, htext⟩ := run_dollar hslugs hreads hdollar state
        (pieces.flatMap (Piece.render slugs) ++ escape last)
      rw [htext, ih]
      simp [Scan.push]
    | false =>
      rw [run_piece hslugs hreads hdollar, ih]
      simp only [Scan.reference, Scan.push, List.countP_append, countP_textPart]
      simp [ValuePart.isRef]
      omega

theorem countP_partsOf (pieces : List Piece) (last : List Char) :
    (partsOf pieces last).countP ValuePart.isRef = pieces.length := by
  induction pieces with
  | nil => exact countP_textPart last
  | cons piece pieces ih =>
    rw [partsOf, List.countP_append, countP_textPart] at ih ⊢
    simp only [List.flatMap_cons, List.countP_append, Piece.parts, countP_textPart,
      List.length_cons, ← ih]
    simp [ValuePart.isRef]
    omega

/-- Rendered pieces are read as they were exactly if no text ends in a dollar before its
reference. -/
theorem parse_render_iff (hslugs : slugs.Safe)
    (h : ∀ piece ∈ pieces, ReadsBack slugs piece.owner piece.key) (last : List Char) :
    parseVariableTemplate (renderVariableParts (partsOf pieces last) slugs) (lineageOf slugs) =
      ⟨partsOf pieces last, [], false⟩ ↔ ∀ piece ∈ pieces, piece.dollar = false := by
  constructor
  · intro hparse
    have hparts := congrArg (fun parsed => parsed.parts.countP ValuePart.isRef) hparse
    have hcount := countP_run hslugs h last ⟨[], [], false, []⟩
    rw [run] at hcount
    simp only [parseVariableTemplate, renderVariableParts, String.toList_ofList, render_partsOf,
      List.countP_append, countP_textPart, hcount, countP_partsOf, List.countP_nil, Nat.zero_add,
      Nat.add_zero] at hparts
    simpa using List.countP_eq_length.mp hparts
  · intro hdollar
    exact parse_render hslugs (fun piece hp => ⟨h piece hp, hdollar piece hp⟩) last

/-! ## What is parsed -/

def nul : Char := Char.ofNat 0

/-- A piece that is read back, of a text a value may hold. -/
structure Piece.Plain (slugs : ServiceNames) (piece : Piece) : Prop where
  reads : ReadsBack slugs piece.owner piece.key
  dollar : piece.dollar = false
  nul : nul ∉ piece.text

/-- Between turns the parts are those of plain pieces, and a pending dollar stands before no
`${{`. -/
structure Midway (slugs : ServiceNames) (state : Scan) (text : List Char) : Prop where
  pieces : ∃ pieces : List Piece, state.parts = pieces.flatMap Piece.parts ∧
    ∀ piece ∈ pieces, piece.Plain slugs
  dollar : state.pending.getLast? = some '$' → ¬ ['$', '{', '{'] <+: text
  pending : nul ∉ state.pending
  text : nul ∉ text

theorem readsBack_of_token {name : Option (List Char)}
    (htoken : templateToken text = some (name, key, left))
    (howner : tokenOwner (lineageOf slugs) name = some owner) :
    ReadsBack slugs owner (String.ofList key) := by
  obtain ⟨-, hkey, hchars⟩ := templateToken_eq_some htoken
  refine ⟨by simpa using hkey, by simpa using hchars, ?_⟩
  rintro lineage rfl
  cases name with
  | none => cases howner
  | some name =>
    obtain ⟨found, hfound, heq⟩ := Option.map_eq_some_iff.mp howner
    obtain rfl := ValuePartOwner.service.inj heq
    exact ⟨_, mem_of_lineageOf hfound⟩

theorem Midway.push (h : Midway slugs state text) (took : List Char)
    (hleft : nul ∉ left) (htook : nul ∉ took)
    (hdollar : (state.pending ++ took).getLast? = some '$' → ¬ ['$', '{', '{'] <+: left) :
    Midway slugs (state.push took) left :=
  ⟨h.pieces, hdollar, by simpa [Scan.push] using ⟨h.pending, htook⟩, hleft⟩

theorem Midway.turned {next : Scan × List Char} (h : Midway slugs state text)
    (hturn : Turned (lineageOf slugs) state text next) : Midway slugs next.1 next.2 := by
  have htext := h.text
  have hopening : nul ∉ ['$', '{', '{'] := by decide
  cases hturn with
  | escaped after =>
    simp only [List.mem_cons, not_or] at htext
    exact h.push _ htext.2.2.2.2 hopening (by simp)
  | char c after hescaped hopen =>
    rw [List.mem_cons, not_or] at htext
    refine h.push _ htext.2 (by simpa using htext.1) fun hlast hafter => hescaped ?_
    obtain rfl : c = '$' := by simpa using hlast
    exact List.cons_prefix_cons.mpr ⟨rfl, hafter⟩
  | malformed after unterminated =>
    simp only [List.mem_cons, not_or] at htext
    obtain ⟨hpieces, hdollar, hpending, hleft⟩ :=
      h.push ['$', '{', '{'] htext.2.2.2 hopening (by simp)
    exact ⟨hpieces, hdollar, hpending, hleft⟩
  | unresolved token left names =>
    simp only [List.mem_cons, List.mem_append, not_or] at htext
    obtain ⟨hpieces, hdollar, hpending, hleft⟩ :=
      h.push ('$' :: '{' :: '{' :: (token ++ ['}', '}'])) htext.2.2.2.2.2.2
        (by simp [htext.1, htext.2.1, htext.2.2.2.1, htext.2.2.2.2.1])
        (by simp [List.getLast?_cons, List.getLast?_append])
    exact ⟨hpieces, hdollar, hpending, hleft⟩
  | reference token left key name owner htoken howner =>
    simp only [List.mem_cons, List.mem_append, not_or] at htext
    obtain ⟨pieces, hparts, hplain⟩ := h.pieces
    have hpiece : Piece.Plain slugs ⟨state.pending, owner, String.ofList key⟩ := by
      refine ⟨readsBack_of_token htoken howner, ?_, h.pending⟩
      have hlast : state.pending.getLast? ≠ some '$' := fun hlast => h.dollar hlast ⟨_, rfl⟩
      simpa [Piece.dollar] using hlast
    refine ⟨⟨pieces ++ [⟨state.pending, owner, String.ofList key⟩], ?_,
      ?_⟩, by simp [Scan.reference], by simp [Scan.reference], htext.2.2.2.2.2.2⟩
    · simp [Scan.reference, hparts, Piece.parts]
    · intro piece hmem
      rcases List.mem_append.mp hmem with hmem | hmem
      · exact hplain piece hmem
      · rw [List.mem_singleton.mp hmem]
        exact hpiece

/-- What is parsed of a text is plain pieces and a text. -/
theorem parse_pieces (slugs : ServiceNames) {text : String} (h : nul ∉ text.toList) :
    ∃ pieces last, (parseVariableTemplate text (lineageOf slugs)).parts = partsOf pieces last ∧
      (∀ piece ∈ pieces, piece.Plain slugs) ∧ nul ∉ last := by
  have hstart : Midway slugs ⟨[], [], false, []⟩ text.toList :=
    ⟨⟨[], rfl, by simp⟩, by simp, by simp, h⟩
  have hend := run_invariant (P := Midway slugs)
    (fun _ _ _ _ hturn hmid => hmid.turned hturn) hstart
  obtain ⟨⟨pieces, hparts, hplain⟩, -, hpending, -⟩ := hend
  refine ⟨pieces, _, ?_, hplain, hpending⟩
  rw [partsOf, ← hparts]
  rfl

end Pieces

end Ployz
