import Ployz.Config.Service
import Ployz.Lib.Run

/-!
# Service-setting admission and normalisation

Each authored setting is normalised and checked on its own, and a whole configuration
field by field, in the order its document lists them. What validation returns it takes
again unchanged, `parseServiceConfig_normalizes`: a stored configuration reads back as it
was written.
-/

namespace Ployz

open Run

/-- Validation errors identify the setting, never echo credentials or authored values. -/
structure ConfigError where
  path : String
  message : String
deriving DecidableEq, Repr

namespace Validation

def cpuLimitMax : ℚ := 64
def memLimitMax : ℚ := 1024
def replicasMax : UInt8 := 50
def maxRetriesMax : UInt8 := 100
def commandMax : Nat := 2000
def imageMax : Nat := 500
def dockerfilePathMax : Nat := 500
def repositoryMax : Nat := 300
def branchMax : Nat := 255
def healthcheckPathMax : Nat := 500
def healthcheckTimeoutMax : UInt16 := 300
def usizeMax : Nat := 2 ^ 64 - 1

/-- The largest GitHub id a double holds exactly. -/
def githubIdMax : UInt64 := 9007199254740991

def range (valid : Bool) (path message : String) : Except ConfigError Unit :=
  if valid then pure () else throw ⟨path, message⟩

@[simp] theorem range_eq_ok {valid : Bool} {path message : String} {u : Unit} :
    range valid path message = .ok u ↔ valid = true := by
  cases valid <;> simp [range, pure, Except.pure, throw, throwThe, MonadExceptOf.throw]

/-- What a numeric setting takes. -/
def expected : String → String
  | "replicas" => "Expected a whole number of replicas from 1–50"
  | "maxRetries" => "Expected a whole number of retries from 0–100"
  | "cpuLimit" => "Expected vCPUs above 0 and up to 64, for example 0.5"
  | "memLimit" => "Expected GB above 0 and up to 1024, for example 0.5 or 2"
  | "healthcheckTimeoutSeconds" => "Expected 1–300 seconds"
  | _ => "Invalid setting value"

/-! ## One setting -/

def trimmed (path : String) (max : Nat) (value : String) : Except ConfigError String := do
  range (!value.toList.contains (Char.ofNat 0)) path "Null characters are not allowed"
  let value := trim value
  range (!value.toList.isEmpty && value.toList.length ≤ max) path
    "Expected a non-empty value within the length limit"
  pure value

def optionalTrimmed (path : String) (max : Nat) :
    Option String → Except ConfigError (Option String) :=
  option (trimmed path max)

def isDirChar (c : Char) : Bool :=
  c.isAlphanum || c == '/' || c == '.' || c == '_' || c == '-'

def rootDir (value : String) : Except ConfigError String := do
  let value ← trimmed "source.rootDir" usizeMax value
  range (value.toList.head? == some '/' && !hasDoubleSlash value.toList &&
      value.toList.all isDirChar)
    "source.rootDir" "Expected an absolute repository directory"
  pure (if value = "/" then value else String.ofList (value.toList.rdropWhile (· == '/')))

def healthcheckPath (value : String) : Except ConfigError String := do
  let value ← trimmed "healthcheck.path" healthcheckPathMax value
  range (value.toList.head? == some '/' && !value.toList.any isControl)
    "healthcheck.path" "Expected an absolute HTTP path without control characters"
  pure value

def timeout (value : UInt16) : Except ConfigError Unit :=
  range (1 ≤ value && value ≤ healthcheckTimeoutMax)
    "healthcheck.timeoutSeconds" "Expected 1–300 seconds"

def hostnamePrefix (value : String) : Except ConfigError String := do
  let value := toLowercase (trim value)
  range (isDnsLabel value) "managedHostname.prefix" "Expected a lowercase DNS label"
  pure value

def managedHostname (value : ServiceManagedHostname) :
    Except ConfigError ServiceManagedHostname := do
  let label ← hostnamePrefix value.prefix_
  range (value.targetPort != some 0) "managedHostnames" "Expected a port from 1–65535"
  pure { value with prefix_ := label }

def limit (max : ℚ) (path : String) (value : Option ℚ) : Except ConfigError Unit :=
  range (value.all fun n => decide (0 < n) && decide (n ≤ max)) path (expected path)

def positiveSafe (id : UInt64) : Bool := 1 ≤ id && id ≤ githubIdMax

def gitAccess : ServiceGitAccess → Except ConfigError Unit
  | .public_ => pure ()
  | .githubInstallation installationId =>
    range (positiveSafe installationId) "source.access"
      "Expected a positive safe GitHub installation ID"

def gitBranch : ServiceGitBranch → Except ConfigError ServiceGitBranch
  | .connected name => ServiceGitBranch.connected <$> trimmed "source.branch" branchMax name
  | .disconnected previousName =>
    ServiceGitBranch.disconnected <$> optionalTrimmed "source.branch" branchMax previousName

def imageCredentials : ServiceImageCredentials → Except ConfigError Unit
  | .none => pure ()
  | .configured credentialId =>
    range (isUuid credentialId) "source.credentials" "Expected a credential ID"

def normalizeSource : ServiceSource → Except ConfigError ServiceSource
  | .empty version path => do
    range (version == 1) "source.version" "Expected version 1"
    return .empty version (← rootDir path)
  | .git version repository repositoryId access path branch => do
    range (version == 2) "source.version" "Expected version 2"
    let repository ← trimmed "source.repository" repositoryMax repository
    range (positiveSafe repositoryId) "source.repository" "Expected positive safe GitHub IDs"
    gitAccess access
    let path ← rootDir path
    return .git version repository repositoryId access path (← gitBranch branch)
  | .image version image credentials => do
    range (version == 1) "source.version" "Expected version 1"
    let image ← trimmed "source.image" imageMax image
    imageCredentials credentials
    return .image version image credentials

def healthcheck : ServiceHealthcheck → Except ConfigError ServiceHealthcheck
  | .none => pure .none
  | .http path timeoutSeconds => do
    let path ← healthcheckPath path
    timeout timeoutSeconds
    return .http path timeoutSeconds

/-- The routes' loop: `ids` are those of the routes before. -/
def routes (ids : List String) : List ServiceRoute → Except ConfigError (List ServiceRoute)
  | [] => pure []
  | route :: rest => do
    range (isUuid route.id && !ids.contains route.id) "routes" "Route IDs must be valid and unique"
    let hostname := toLowercase (trim route.hostname)
    range (isHostname hostname) "routes" "Invalid public hostname"
    range (route.targetPort != some 0) "routes" "Expected a port from 1–65535"
    return { route with hostname } :: (← routes (route.id :: ids) rest)

/-- The managed hostnames' loop: `seen` are the labels before, normalised. -/
def managedHostnames (seen : List String) :
    List ServiceManagedHostname → Except ConfigError (List ServiceManagedHostname)
  | [] => pure []
  | value :: rest => do
    let value ← managedHostname value
    range (!seen.contains value.prefix_) "managedHostnames"
      "Each managed domain needs a distinct subdomain"
    return value :: (← managedHostnames (value.prefix_ :: seen) rest)

def buildConfig (value : ServiceBuildConfig) : Except ConfigError ServiceBuildConfig := do
  let command ← optionalTrimmed "build.command" commandMax value.command
  let dockerfilePath ← optionalTrimmed "build.dockerfilePath" dockerfilePathMax value.dockerfilePath
  return { value with command, dockerfilePath }

/-! ## What a normaliser returns it takes -/

theorem trimmed_eq_ok {path : String} {max : Nat} {value out : String} :
    trimmed path max value = .ok out ↔
      Char.ofNat 0 ∉ value.toList ∧ out = trim value ∧ out.toList ≠ [] ∧
        out.toList.length ≤ max := by
  simp only [trimmed, bind_eq_ok, range_eq_ok, pure_eq_ok, exists_const, Bool.and_eq_true,
    Bool.not_eq_true', List.isEmpty_eq_false_iff, decide_eq_true_eq, List.contains_eq_mem,
    decide_eq_false_iff_not]
  constructor
  · rintro ⟨hn, ⟨he, hl⟩, rfl⟩
    exact ⟨hn, rfl, he, hl⟩
  · rintro ⟨hn, rfl, he, hl⟩
    exact ⟨hn, ⟨he, hl⟩, rfl⟩

theorem toList_trim_sublist (s : String) : (trim s).toList.Sublist s.toList := by
  rw [trim, String.toList_ofList]
  exact (List.rdropWhile_prefix isWhitespace _).sublist.trans (List.dropWhile_sublist isWhitespace)

theorem trimmed_normalizes (path : String) (max : Nat) : Normalizes (trimmed path max) := by
  intro value out h
  obtain ⟨hn, rfl, he, hl⟩ := trimmed_eq_ok.mp h
  exact trimmed_eq_ok.mpr
    ⟨fun hc => hn ((toList_trim_sublist value).mem hc), (trim_trim value).symm, he, hl⟩

theorem optionalTrimmed_normalizes (path : String) (max : Nat) :
    Normalizes (optionalTrimmed path max) :=
  (trimmed_normalizes path max).option

theorem healthcheckPath_normalizes : Normalizes healthcheckPath := by
  intro value out h
  simp only [healthcheckPath, bind_eq_ok, range_eq_ok, pure_eq_ok, exists_const] at h ⊢
  obtain ⟨_, ht, hp, rfl⟩ := h
  exact ⟨_, trimmed_normalizes _ _ ht, hp, rfl⟩

theorem isDirChar_toNat {c : Char} (h : isDirChar c = true) : 45 ≤ c.toNat ∧ c.toNat ≤ 122 := by
  unfold isDirChar Char.isAlphanum Char.isAlpha Char.isUpper Char.isLower Char.isDigit at h
  simp only [Bool.or_eq_true, Bool.and_eq_true, decide_eq_true_eq, beq_iff_eq, ge_iff_le,
    UInt32.le_iff_toNat_le] at h
  rcases h with ((((((⟨hlo, hhi⟩ | ⟨hlo, hhi⟩) | ⟨hlo, hhi⟩) | rfl) | rfl) | rfl) | rfl) <;>
    first
      | exact ⟨le_trans (by decide) hlo, le_trans hhi (by decide)⟩
      | decide

theorem head_rdropWhile_slash {cs : List Char} (hhead : cs.head? = some '/')
    (hslash : hasDoubleSlash cs = false) (hne : cs ≠ ['/']) :
    (cs.rdropWhile (· == '/')).head? = some '/' := by
  obtain ⟨b, hb, hb'⟩ : ∃ b ∈ cs, b ≠ '/' := by
    match cs with
    | [a] => simp_all
    | a :: b :: rest =>
      simp only [List.head?_cons, Option.some.injEq] at hhead
      refine ⟨b, by simp, ?_⟩
      rintro rfl
      simp [hasDoubleSlash, hhead] at hslash
  have hnil : cs.rdropWhile (· == '/') ≠ [] := fun h => by
    simpa [hb'] using List.rdropWhile_eq_nil_iff.mp h b hb
  obtain ⟨t, ht⟩ := List.rdropWhile_prefix (· == '/') cs
  rw [← hhead, ← ht, List.head?_append_of_ne_nil _ hnil, ht]

theorem hasDoubleSlash_prefix {xs ys : List Char} (h : xs <+: ys)
    (hys : hasDoubleSlash ys = false) : hasDoubleSlash xs = false := by
  obtain ⟨t, rfl⟩ := h
  induction xs using hasDoubleSlash.induct with
  | case1 a b rest ih =>
    simp only [List.cons_append, hasDoubleSlash, Bool.or_eq_false_iff] at hys ⊢
    exact ⟨hys.1, ih hys.2⟩
  | case2 xs h =>
    unfold hasDoubleSlash
    split
    · exact absurd rfl (h _ _ _)
    · rfl

theorem rootDir_normalizes : Normalizes rootDir := by
  intro value out h
  simp only [rootDir, bind_eq_ok, range_eq_ok, pure_eq_ok, exists_const, Bool.and_eq_true,
    beq_iff_eq, Bool.not_eq_true', List.all_eq_true] at h
  obtain ⟨dir, ht, ⟨⟨hhead, hslash⟩, hall⟩, rfl⟩ := h
  by_cases hroot : dir = "/"
  · subst hroot
    simp only [rootDir, bind_eq_ok, range_eq_ok, pure_eq_ok, exists_const]
    exact ⟨_, trimmed_normalizes _ _ ht, by decide, by simp⟩
  rw [if_neg hroot]
  set out := String.ofList (dir.toList.rdropWhile (· == '/')) with hout
  have hlist : out.toList = dir.toList.rdropWhile (· == '/') := by rw [hout, String.toList_ofList]
  have hinitial : out.toList <+: dir.toList := hlist ▸ List.rdropWhile_prefix _ _
  have hhead' : out.toList.head? = some '/' := by
    refine hlist ▸ head_rdropWhile_slash hhead hslash fun h => hroot ?_
    rw [← String.ofList_toList (s := dir), h]
  have hall' : ∀ c ∈ out.toList, isDirChar c = true := fun c hc => hall c (hinitial.sublist.mem hc)
  obtain ⟨-, -, -, hlen⟩ := trimmed_eq_ok.mp ht
  have ht' : trimmed "source.rootDir" usizeMax out = .ok out := by
    refine trimmed_eq_ok.mpr ⟨fun h0 => ?_, ?_, ?_, hinitial.length_le.trans hlen⟩
    · exact absurd (isDirChar_toNat (hall' _ h0)) (by decide)
    · refine (trim_eq_of_all fun c hc => ?_).symm
      have := isDirChar_toNat (hall' c hc)
      exact isWhitespace_eq_false (by omega)
    · rintro hnil
      simp [hnil] at hhead'
  simp only [rootDir, bind_eq_ok, range_eq_ok, pure_eq_ok, exists_const, Bool.and_eq_true,
    beq_iff_eq, Bool.not_eq_true', List.all_eq_true]
  refine ⟨out, ht', ⟨⟨hhead', hasDoubleSlash_prefix hinitial hslash⟩, hall'⟩, ?_⟩
  split
  · rfl
  · rw [hlist, List.rdropWhile_idempotent, ← hlist, String.ofList_toList]

theorem hostnamePrefix_normalizes : Normalizes hostnamePrefix := by
  intro value out h
  simp only [hostnamePrefix, bind_eq_ok, range_eq_ok, pure_eq_ok, exists_const] at h ⊢
  obtain ⟨hlabel, rfl⟩ := h
  rw [toLowercase_trim_eq_self (isHostChar_of_isDnsLabel hlabel)]
  exact ⟨hlabel, rfl⟩

theorem managedHostname_normalizes : Normalizes managedHostname := by
  intro value out h
  simp only [managedHostname, bind_eq_ok, range_eq_ok, pure_eq_ok, exists_const] at h ⊢
  obtain ⟨label, hlabel, hport, rfl⟩ := h
  exact ⟨label, hostnamePrefix_normalizes hlabel, hport, rfl⟩

theorem managedHostnames_normalizes (seen : List String) : Normalizes (managedHostnames seen) := by
  intro values out h
  induction values generalizing seen out with
  | nil =>
    simp only [managedHostnames, pure_eq_ok] at h
    subst h
    rfl
  | cons value rest ih =>
    simp only [managedHostnames, bind_eq_ok, range_eq_ok, pure_eq_ok, exists_const] at h
    obtain ⟨value, hv, hseen, rest, hrest, rfl⟩ := h
    simp only [managedHostnames, bind_eq_ok, range_eq_ok, pure_eq_ok, exists_const]
    exact ⟨value, managedHostname_normalizes hv, hseen, rest, ih _ hrest, rfl⟩

theorem routes_normalizes (ids : List String) : Normalizes (routes ids) := by
  intro values out h
  induction values generalizing ids out with
  | nil =>
    simp only [routes, pure_eq_ok] at h
    subst h
    rfl
  | cons route rest ih =>
    simp only [routes, bind_eq_ok, range_eq_ok, pure_eq_ok, exists_const] at h
    obtain ⟨hid, hhost, hport, rest, hrest, rfl⟩ := h
    simp only [routes, bind_eq_ok, range_eq_ok, pure_eq_ok, exists_const,
      toLowercase_trim_eq_self (isHostChar_of_isHostname hhost)]
    exact ⟨hid, hhost, hport, rest, ih _ hrest, rfl⟩

theorem gitBranch_normalizes : Normalizes gitBranch := by
  rintro (name | previousName) out h
  · simp only [gitBranch, map_eq_ok] at h
    obtain ⟨name, hname, rfl⟩ := h
    simp only [gitBranch, map_eq_ok]
    exact ⟨name, trimmed_normalizes _ _ hname, rfl⟩
  · simp only [gitBranch, map_eq_ok] at h
    obtain ⟨previousName, hname, rfl⟩ := h
    simp only [gitBranch, map_eq_ok]
    exact ⟨previousName, optionalTrimmed_normalizes _ _ hname, rfl⟩

theorem normalizeSource_normalizes : Normalizes normalizeSource := by
  intro source out h
  cases source with
  | empty version path =>
    simp only [normalizeSource, bind_eq_ok, range_eq_ok, pure_eq_ok, exists_const] at h
    obtain ⟨hversion, path, hpath, rfl⟩ := h
    simp only [normalizeSource, bind_eq_ok, range_eq_ok, pure_eq_ok, exists_const]
    exact ⟨hversion, path, rootDir_normalizes hpath, rfl⟩
  | git version repository repositoryId access path branch =>
    simp only [normalizeSource, bind_eq_ok, range_eq_ok, pure_eq_ok, exists_const] at h
    obtain ⟨hversion, repository, hrepository, hid, _, haccess, path, hpath, branch, hbranch,
        rfl⟩ := h
    simp only [normalizeSource, bind_eq_ok, range_eq_ok, pure_eq_ok, exists_const]
    exact ⟨hversion, repository, trimmed_normalizes _ _ hrepository, hid, _, haccess, path,
      rootDir_normalizes hpath, branch, gitBranch_normalizes hbranch, rfl⟩
  | image version image credentials =>
    simp only [normalizeSource, bind_eq_ok, range_eq_ok, pure_eq_ok, exists_const] at h
    obtain ⟨hversion, image, himage, _, hcredentials, rfl⟩ := h
    simp only [normalizeSource, bind_eq_ok, range_eq_ok, pure_eq_ok, exists_const]
    exact ⟨hversion, image, trimmed_normalizes _ _ himage, _, hcredentials, rfl⟩

theorem healthcheck_normalizes : Normalizes healthcheck := by
  rintro (_ | ⟨path, timeoutSeconds⟩) out h
  · simp only [healthcheck, pure_eq_ok] at h
    subst h
    rfl
  · simp only [healthcheck, bind_eq_ok, pure_eq_ok] at h
    obtain ⟨path, hpath, _, htimeout, rfl⟩ := h
    simp only [healthcheck, bind_eq_ok, pure_eq_ok]
    exact ⟨path, healthcheckPath_normalizes hpath, _, htimeout, rfl⟩

theorem buildConfig_normalizes : Normalizes buildConfig := by
  intro value out h
  simp only [buildConfig, bind_eq_ok, pure_eq_ok] at h ⊢
  obtain ⟨command, hcommand, path, hpath, rfl⟩ := h
  exact ⟨command, optionalTrimmed_normalizes _ _ hcommand, path,
    optionalTrimmed_normalizes _ _ hpath, rfl⟩

end Validation

open Validation

/-! ## A whole configuration -/

/-- Decode complete service settings and normalize each authored field. Fields are taken
in the order a JSON object lists them, by name. -/
def parseServiceConfig (config : AuthoredServiceConfig) :
    Except ConfigError AuthoredServiceConfig := do
  range (config.version == 2) "version" "Expected version 2"
  let build ← buildConfig config.build
  limit cpuLimitMax "cpuLimit" config.cpuLimit
  let healthcheck ← healthcheck config.healthcheck
  let managedHostnames ← managedHostnames [] config.managedHostnames
  range (config.maxRetries ≤ maxRetriesMax) "maxRetries" (expected "maxRetries")
  limit memLimitMax "memLimit" config.memLimit
  let preDeployCommand ← optionalTrimmed "command" commandMax config.preDeployCommand
  range (1 ≤ config.replicas && config.replicas ≤ replicasMax) "replicas" (expected "replicas")
  let routes ← routes [] config.routes
  let source ← normalizeSource config.source
  let startCommand ← optionalTrimmed "command" commandMax config.startCommand
  return { config with
    build, healthcheck, managedHostnames, preDeployCommand, routes, source, startCommand }

/-- What validation returns it takes again, unchanged. -/
theorem parseServiceConfig_normalizes : Normalizes parseServiceConfig := by
  intro config out h
  simp only [parseServiceConfig, bind_eq_ok, range_eq_ok, pure_eq_ok, exists_const] at h
  obtain ⟨hversion, build, hbuild, _, hcpu, check, hcheck, hosts, hhosts, hretries, _, hmem, pre,
    hpre, hreplicas, domains, hdomains, source, hsource, start, hstart, rfl⟩ := h
  simp only [parseServiceConfig, bind_eq_ok, range_eq_ok, pure_eq_ok, exists_const]
  exact ⟨hversion, build, buildConfig_normalizes hbuild, _, hcpu, check,
    healthcheck_normalizes hcheck, hosts, managedHostnames_normalizes _ hhosts, hretries, _, hmem,
    pre, optionalTrimmed_normalizes _ _ hpre, hreplicas, domains, routes_normalizes _ hdomains,
    source, normalizeSource_normalizes hsource, start, optionalTrimmed_normalizes _ _ hstart, rfl⟩

end Ployz
