import Ployz.Config.Template
import Ployz.Store.Error

/-!
# Plain variable values

`textParts` takes text as a variable's parts and `shown` writes a stored value back as reads show
it. What is shown of an accepted text is accepted with the same parts (`textParts_render`).
-/

namespace Ployz

open Run

/-- A refused variable value: never echoed. -/
def invalidValue (key message : String) : RpcError := .invalid (key ++ ": " ++ message)

/-- Plain and secret values must survive the container's environment unchanged. -/
def validateText (key text : String) : Except RpcError Unit :=
  if text.toList.contains nul then throw (invalidValue key "null characters are not allowed")
  else pure ()

/-- Text as a variable's parts, referencing Services by their names, with its fingerprint. -/
def textParts (plainFingerprint : List ValuePart → String) (key text : String)
    (names : ServiceNames) : Except RpcError (List ValuePart × String) := do
  validateText key text
  let template := parseVariableTemplate text (lineageOf names)
  if template.unterminated then
    throw (invalidValue key ("a `$\x7b\x7b` has no closing `\x7d\x7d`: finish the reference, " ++
      "or write `$$\x7b\x7b` for a literal `$\x7b\x7b`"))
  else if template.unresolved ≠ [] then
    throw (invalidValue key "a reference names no Service in this Environment")
  else
    return (template.parts, plainFingerprint template.parts)

/-- Text parts as a stored value: a literal unless they reference something. -/
def stored : List ValuePart → SavedVariableValue
  | [] => .literal ""
  | [.text value] => .literal value
  | parts => .template parts

/-- A variable's value as reads show it. -/
inductive ShownValue
  | text (value : String)
  | secret (set : Bool)
deriving DecidableEq

def shown (names : ServiceNames) : SavedVariableValue → ShownValue
  | .secret _ => .secret true
  | .secretWithoutValue => .secret false
  | .literal value => .text (renderVariableParts [.text value] names)
  | .template parts => .text (renderVariableParts parts names)

section

variable {plainFingerprint : List ValuePart → String} {key text : String} {names : ServiceNames}
  {parts : List ValuePart} {fingerprint : String}

theorem validateText_eq_ok {u : Unit} : validateText key text = .ok u ↔ nul ∉ text.toList := by
  unfold validateText
  split_ifs with h
  · have hmem : nul ∈ text.toList := by simpa using h
    exact ⟨fun h => h.elim, fun h => absurd hmem h⟩
  · have hmem : nul ∉ text.toList := by simpa using h
    simp only [pure_eq_ok, hmem, not_false_eq_true]

theorem textParts_eq_ok :
    textParts plainFingerprint key text names = .ok (parts, fingerprint) ↔
      nul ∉ text.toList ∧ parseVariableTemplate text (lineageOf names) = ⟨parts, [], false⟩ ∧
        fingerprint = plainFingerprint parts := by
  rw [textParts, bind_eq_ok]
  constructor
  · rintro ⟨_, hvalid, h⟩
    dsimp only at h
    split_ifs at h with hterminated hresolved
    obtain ⟨rfl, rfl⟩ := Prod.mk.inj (pure_eq_ok.mp h)
    refine ⟨validateText_eq_ok.mp hvalid, ?_, rfl⟩
    cases htemplate : parseVariableTemplate text (lineageOf names) with
    | mk found unresolved unterminated =>
      rw [htemplate] at hterminated hresolved
      obtain rfl : unterminated = false := by simpa using hterminated
      obtain rfl : unresolved = [] := by simpa using hresolved
      rfl
  · rintro ⟨hnul, htemplate, rfl⟩
    refine ⟨⟨⟩, validateText_eq_ok.mpr hnul, ?_⟩
    rw [htemplate]
    rfl

theorem pieces_of_textParts
    (h : textParts plainFingerprint key text names = .ok (parts, fingerprint)) :
    ∃ pieces last, parts = partsOf pieces last ∧ (∀ piece ∈ pieces, piece.Plain names) ∧
      nul ∉ last := by
  obtain ⟨hnul, htemplate, -⟩ := textParts_eq_ok.mp h
  obtain ⟨pieces, last, hparts, hplain, hlast⟩ := parse_pieces names hnul
  rw [htemplate] at hparts
  exact ⟨pieces, last, hparts, hplain, hlast⟩

theorem not_mem_escape {c : Char} (hc : c ≠ '$' ∧ c ≠ '{') {text : List Char} (h : c ∉ text) :
    c ∉ escape text := by
  induction text using escape.induct with
  | case1 text ih =>
    simp only [List.mem_cons, not_or] at h
    simp [escape_opening, hc.1, hc.2, ih h.2.2.2]
  | case2 d text hopen ih =>
    rw [List.mem_cons, not_or] at h
    rw [escape, List.mem_cons, not_or]
    · exact ⟨h.1, ih h.2⟩
    · exact hopen
  | case3 => simp [escape]

theorem nul_not_identifier {extra : Char} (h : isIdentifierChar extra nul = false)
    {text : List Char} (hchars : ∀ c ∈ text, isIdentifierChar extra c = true) : nul ∉ text := by
  intro hmem
  rw [hchars nul hmem] at h
  cases h

/-- A reference renders without a NUL. -/
theorem nul_not_mem_reference (hnames : names.Safe) {owner : ValuePartOwner}
    (h : ReadsBack names owner key) : nul ∉ renderPart names (.ref owner key) := by
  have hkey : nul ∉ key.toList := nul_not_identifier (by decide) h.chars
  have htext : nul ∉ referenceText names owner key := by
    cases owner with
    | self => exact hkey
    | service lineage =>
      obtain ⟨name, hname⟩ := h.named lineage rfl
      have hchars : nul ∉ name.toList := nul_not_identifier (by decide) (hnames.chars _ hname)
      rw [referenceText, hnames.lookup hname, Option.getD_some, List.mem_append, List.mem_cons]
      rintro (hmem | hmem | hmem)
      · exact hchars hmem
      · exact absurd hmem (by decide)
      · exact hkey hmem
  intro hmem
  simp only [renderPart, List.mem_append] at hmem
  rcases hmem with (hmem | hmem) | hmem
  · exact absurd hmem (by decide)
  · exact htext hmem
  · exact absurd hmem (by decide)

/-- Rendered pieces hold no NUL. -/
theorem nul_not_mem_render (hnames : names.Safe) {pieces : List Piece} {last : List Char}
    (h : ∀ piece ∈ pieces, ReadsBack names piece.owner piece.key ∧ nul ∉ piece.text)
    (hlast : nul ∉ last) : nul ∉ (renderVariableParts (partsOf pieces last) names).toList := by
  rw [renderVariableParts, String.toList_ofList, render_partsOf, List.mem_append, not_or]
  refine ⟨?_, not_mem_escape (by decide) hlast⟩
  rw [List.mem_flatMap]
  rintro ⟨piece, hpiece, hmem⟩
  obtain ⟨hreads, htext⟩ := h piece hpiece
  rcases List.mem_append.mp hmem with hmem | hmem
  · exact not_mem_escape (by decide) htext hmem
  · exact nul_not_mem_reference hnames hreads hmem

theorem textParts_pieces (hnames : names.Safe) {pieces : List Piece} {last : List Char}
    (h : ∀ piece ∈ pieces, piece.Plain names) (hlast : nul ∉ last) :
    textParts plainFingerprint key (renderVariableParts (partsOf pieces last) names) names =
      .ok (partsOf pieces last, plainFingerprint (partsOf pieces last)) :=
  textParts_eq_ok.mpr
    ⟨nul_not_mem_render hnames (fun piece hp => ⟨(h piece hp).reads, (h piece hp).nul⟩) hlast,
      parse_render hnames (fun piece hp => ⟨(h piece hp).reads, (h piece hp).dollar⟩) last, rfl⟩

/-- What is rendered of an accepted text is accepted with the same parts. -/
theorem textParts_render (hnames : names.Safe)
    (h : textParts plainFingerprint key text names = .ok (parts, fingerprint)) :
    textParts plainFingerprint key (renderVariableParts parts names) names =
      .ok (parts, fingerprint) := by
  obtain ⟨-, -, rfl⟩ := textParts_eq_ok.mp h
  obtain ⟨pieces, last, rfl, hplain, hlast⟩ := pieces_of_textParts h
  exact textParts_pieces hnames hplain hlast

theorem shown_stored (names : ServiceNames) (parts : List ValuePart) :
    shown names (stored parts) = .text (renderVariableParts parts names) := by
  unfold stored
  split <;> rfl

end

end Ployz
