import Ployz.Store.TypedAddress
import Ployz.Store.Variables

/-!
# Setting a variable

`setVariable` is the Store's edit of one variable: text, a secret to keep or one to seal, or only
the mark that others may reference it. Writing back what a read shows of a plain value changes
nothing: `shown_sets_nothing`.
-/

namespace Ployz

open Run

inductive Input
  | text (value : String)
  | keep
  | sealing (plaintext : String)

structure Sealing where
  fingerprint : String → String
  encrypt : String → EncryptedSecretValue

section

variable (sealing : Sealing) (plainFingerprint : List ValuePart → String) (names : ServiceNames)
  (others : List SavedServiceIntent)

/-- The value an edit stores, its fingerprint and the Typed Addresses in it. -/
def setValue (current : Option SavedVariableIntent) (key : String) :
    Option Input → Except RpcError (SavedVariableValue × String × Option Typed)
  | none => match current with
    | none => throw (invalidValue key "a new variable needs a value")
    | some current => pure (current.value, current.valueFingerprint, none)
  | some .keep => match current.filter (·.value.isSecret) with
    | none => throw (invalidValue key "it holds no secret to keep")
    | some current => pure (current.value, current.valueFingerprint, none)
  | some (.text text) =>
    if current.any (·.value.isSecret) then throw (invalidValue key
      "it is secret, and a secret never becomes plain text: set it with --secret")
    else do
      let (parts, fingerprint) ← textParts plainFingerprint key text names
      let typed ← inPlain parts key others names
      return (stored parts, fingerprint, typed)
  | some (.sealing plaintext) => do
    validateText key plaintext
    let typed ← inSealed plaintext.toList key others
    let fingerprint := sealing.fingerprint plaintext
    -- Sealing the same secret again changes nothing.
    match current.filter fun current =>
      current.value.isSecret && current.valueFingerprint == fingerprint with
    | some current => return (current.value, fingerprint, typed)
    | none => return (.secret (some (sealing.encrypt plaintext)), fingerprint, typed)

/-- Set variable `key` of a Service: the variable to write, none if Working State stays as it is,
and the Typed Addresses in a new value. -/
def setVariable (fresh : String) (current : Option SavedVariableIntent) (key : String)
    (input : Option Input) (exported : Option Bool) :
    Except RpcError (Option SavedVariableIntent × Option Typed) :=
  -- Ployz provides these; PORT is meant to be set.
  if key ≠ "PORT" ∧ key ∈ builtInVariables then
    throw (.invalid (key ++ " is set by Ployz; pick another name"))
  else do
    let (value, fingerprint, typed) ← setValue sealing plainFingerprint names others current key
      input
    let next : SavedVariableIntent :=
      ⟨current.elim fresh (·.id), key, current.bind (·.description),
        exported.getD (current.any (·.exported)), fingerprint, value⟩
    return (if current = some next then none else some next, typed)

end

/-- For an accepted text, parsing what its parts render to gives the same parts, and setting a
variable that holds it to what is shown of it writes nothing. -/
theorem shown_sets_nothing {plainFingerprint : List ValuePart → String} {names : ServiceNames}
    (hnames : names.Safe) {key text : String} {parts : List ValuePart} {fingerprint : String}
    (h : textParts plainFingerprint key text names = .ok (parts, fingerprint)) :
    (parseVariableTemplate text (lineageOf names)).parts = parts ∧
    (parseVariableTemplate (renderVariableParts parts names) (lineageOf names)).parts = parts ∧
    ∀ current : SavedVariableIntent, current.key = key → current.value = stored parts →
      current.valueFingerprint = fingerprint → (key ≠ "PORT" → key ∉ builtInVariables) →
      ∃ value, shown names current.value = .text value ∧
        ∀ sealing fresh others,
          setVariable sealing plainFingerprint names others fresh (some current) key
              (some (.text value)) none =
            (none, ·) <$> inPlain parts key others names := by
  have hrender := textParts_render hnames h
  refine ⟨by rw [(textParts_eq_ok.mp h).2.1], by rw [(textParts_eq_ok.mp hrender).2.1], ?_⟩
  intro current hkey hvalue hfingerprint hreserved
  refine ⟨_, by rw [hvalue]; exact shown_stored names parts, fun sealing fresh others => ?_⟩
  have hplain : (stored parts).isSecret = false := by
    unfold stored
    split <;> rfl
  have hset : setValue sealing plainFingerprint names others (some current) key
      (some (.text (renderVariableParts parts names))) =
      (fun typed => (stored parts, fingerprint, typed)) <$> inPlain parts key others names := by
    simp only [setValue, Option.any_some, hvalue, hplain, Bool.false_eq_true, if_false, hrender]
    rfl
  have hsame : (⟨current.id, key, current.description, current.exported, fingerprint,
    stored parts⟩ :
      SavedVariableIntent) = current := by
    rw [← hkey, ← hvalue, ← hfingerprint]
  rw [setVariable, if_neg (by tauto), hset]
  cases inPlain parts key others names with
  | error e => rfl
  | ok typed =>
    have hcurrent : (some current).bind (·.description) = current.description := rfl
    show Except.ok _ = Except.ok _
    simp only [Option.elim_some, Option.any_some, Option.getD_none, hcurrent, hsame, if_true]

/-- A text with a reference, a literal `$` and a literal opening. -/
theorem shown_sets_nothing_mixed :
    (parseVariableTemplate "a$$ $$\x7b\x7b b $\x7b\x7b db.USER \x7d\x7d"
        (lineageOf databaseNames)).parts =
      [.text "a$$ $\x7b\x7b b ", .ref (.service "db-lineage") "USER"] :=
  (shown_sets_nothing databaseNames_safe
    (show textParts (fun _ => "") "URL" "a$$ $$\x7b\x7b b $\x7b\x7b db.USER \x7d\x7d"
        databaseNames =
      .ok ([.text "a$$ $\x7b\x7b b ", .ref (.service "db-lineage") "USER"], "")
      by decide +kernel)).1

end Ployz
