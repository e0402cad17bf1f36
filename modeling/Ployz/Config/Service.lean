import Ployz.Config.Text
import Mathlib.Data.Rat.Defs

/-!
# Authored Service settings

The settings a Service's configuration holds, as the document stores them. Numbers keep
the width the document gives them; a CPU or memory limit is a finite number, and every
finite double is a rational.
-/

namespace Ployz

/-- A Service's private address: a DNS label. -/
structure ServiceName where
  value : String
  isLabel : isDnsLabel value = true
deriving DecidableEq, Repr

/-- A DNS-label Namespace: an observer-derived ownership group, not a persisted identity. -/
structure Namespace where
  value : String
  isLabel : isDnsLabel value = true
deriving DecidableEq, Repr

def ServiceName.parse (value : String) : Option ServiceName :=
  if h : isDnsLabel value = true then some ⟨value, h⟩ else none

@[simp] theorem ServiceName.parse_value (name : ServiceName) :
    ServiceName.parse name.value = some name := by
  simp [ServiceName.parse, name.isLabel]

inductive ServiceGitAccess
  | public_
  | githubInstallation (installationId : UInt64)
deriving DecidableEq, Repr

/-- An attached repository branch or evidence of a disconnected selection. -/
inductive ServiceGitBranch
  | connected (name : String)
  | disconnected (previousName : Option String)
deriving DecidableEq, Repr

/-- A stable credential reference. -/
inductive ServiceImageCredentials
  | none
  | configured (credentialId : String)
deriving DecidableEq, Repr

/-- Source selection and the authority required to build or pull it. -/
inductive ServiceSource
  | empty (version : UInt8) (rootDir : String)
  | git (version : UInt8) (repository : String) (repositoryId : UInt64)
      (access : ServiceGitAccess) (rootDir : String) (branch : ServiceGitBranch)
  | image (version : UInt8) (image : String) (credentials : ServiceImageCredentials)
deriving DecidableEq, Repr

inductive ServiceHealthcheck
  | none
  | http (path : String) (timeoutSeconds : UInt16)
deriving DecidableEq, Repr

/-- A restart policy; Cloud's retry count is authored separately. -/
inductive ServiceRestartPolicy
  | no
  | always
  | unlessStopped
  | onFailure
deriving DecidableEq, Repr

def ServiceRestartPolicy.toString : ServiceRestartPolicy → String
  | .no => "no"
  | .always => "always"
  | .unlessStopped => "unless-stopped"
  | .onFailure => "on-failure"

def ServiceRestartPolicy.parse : String → Option ServiceRestartPolicy
  | "no" => some .no
  | "always" => some .always
  | "unless-stopped" => some .unlessStopped
  | "on-failure" => some .onFailure
  | _ => none

@[simp] theorem ServiceRestartPolicy.parse_toString (policy : ServiceRestartPolicy) :
    ServiceRestartPolicy.parse policy.toString = some policy := by
  cases policy <;> rfl

/-- A stable public route identity and hostname. -/
structure ServiceRoute where
  id : String
  hostname : String
  targetPort : Option UInt16
deriving DecidableEq, Repr

structure ServiceManagedHostname where
  prefix_ : String
  targetPort : Option UInt16
deriving DecidableEq, Repr

inductive BuildMethod
  | dockerfile
  | railpack
deriving DecidableEq, Repr

def BuildMethod.toString : BuildMethod → String
  | .dockerfile => "dockerfile"
  | .railpack => "railpack"

/-- `auto` is an older name for Railpack. -/
def BuildMethod.parse : String → Option BuildMethod
  | "dockerfile" => some .dockerfile
  | "railpack" => some .railpack
  | "auto" => some .railpack
  | _ => none

@[simp] theorem BuildMethod.parse_toString (method : BuildMethod) :
    BuildMethod.parse method.toString = some method := by
  cases method <;> rfl

structure ServiceBuildConfig where
  buildMethod : BuildMethod
  dockerfilePath : Option String
  command : Option String
deriving DecidableEq, Repr

/-- Which Service Template, and which version of it, a Service was created from. The
template's id is a DNS label, as a Service's name is, and its version is not zero. -/
structure ServiceTemplate where
  id : ServiceName
  version : UInt32
  version_ne_zero : version ≠ 0
deriving DecidableEq, Repr

/-- Authored Cloud settings. -/
structure AuthoredServiceConfig where
  version : UInt8
  source : ServiceSource
  preDeployCommand : Option String
  startCommand : Option String
  healthcheck : ServiceHealthcheck
  restartPolicy : ServiceRestartPolicy
  maxRetries : UInt8
  replicas : UInt8
  cpuLimit : Option ℚ
  memLimit : Option ℚ
  privateDns : ServiceName
  routes : List ServiceRoute
  managedHostnames : List ServiceManagedHostname
  build : ServiceBuildConfig
  template : Option ServiceTemplate
deriving DecidableEq

/-- The stable producer scope referenced by a template expression. -/
inductive ValuePartOwner
  | self
  | service (lineageId : String)
deriving DecidableEq, Repr

/-- Literal template text or a reference to an owner-qualified variable. -/
inductive ValuePart
  | text (value : String)
  | ref (owner : ValuePartOwner) (key : String)
deriving DecidableEq, Repr

/-- Opaque encrypted material; configuration rules do not decrypt it. -/
structure EncryptedSecretValue where
  version : UInt8
  iv : String
  tag : String
  ciphertext : String
deriving DecidableEq, Repr

/-- A compiled Volume relationship. -/
structure ServiceDeployMount where
  volumeResourceId : String
  volumeName : String
  mountPath : String
deriving DecidableEq, Repr

/-- A compiled literal or sealed environment value. -/
inductive ServiceEnvValue
  | literal (value : String) (parts : Option (List ValuePart))
  | secret (variableId : Option String) (encryptedValue : Option EncryptedSecretValue)
      (fingerprint : String) (interpolated : Option Bool)
deriving DecidableEq, Repr

/-- Service settings with the environment and the mounts derived by compilation. -/
structure ServiceConfig where
  settings : AuthoredServiceConfig
  env : List (String × ServiceEnvValue)
  mounts : List ServiceDeployMount
deriving DecidableEq

end Ployz
