import Ployz.Deploy.Spec
import Ployz.Lib.Encoding
import Mathlib.Logic.Relation

/-!
# Materialized Config files

A Machine keeps the spec of each container it created, and one file for each Config that containers
mount, named by a digest of its content, owner and mode. Creations, removals and collections hold
one lock, so they follow one another; each may fail at any step and the daemon may stop at any step.
A `Step` is one effect on the disk or the spec store, and `Phase` is where the operation under way
stands.

Main theorem: `configs_stay_while_mounted`. The files of stored specs are there in every state that
can be reached (`Sound`), since a collection retains what it read in the store under the lock.
-/

namespace Ployz.Machine.Configs

open Deploy Encoding

/-! ## Identity -/

structure ConfigFile where
  content : List UInt8
  uid : Nat
  gid : Nat
  mode : Nat
deriving DecidableEq

inductive InvalidConfig
  | uidExceedsU32
  | gidExceedsU32
  | modeExceedsPermissionBits (mode : Nat)

/-- What a Config's name is the digest of. -/
def digestInput (file : ConfigFile) : Bytes :=
  le 8 file.content.length ++ file.content.map (·.toFin) ++ le 4 file.uid ++ le 4 file.gid ++
    le 4 file.mode

/-- A name among the materialized Configs: a digest in lower-case hexadecimal digits, that of a file
being written, or another. -/
inductive FileName (D : Type)
  | config (digest : D)
  | temporary (process counter : Nat)
  | other (name : String)
deriving DecidableEq

section

variable {D : Type} (sha256 : Bytes → D)

/-- The name and the file of a mounted Config. -/
def configIdentity (config : ConfigSpec) (mount : ConfigMount) :
    Except InvalidConfig (D × ConfigFile) :=
  let uid := mount.uid.getD 0
  let gid := mount.gid.getD 0
  let mode := mount.mode.getD 0o444
  if 2 ^ 32 ≤ uid then .error .uidExceedsU32
  else if 2 ^ 32 ≤ gid then .error .gidExceedsU32
  else if 0o7777 < mode then .error (.modeExceedsPermissionBits mode)
  else
    let file : ConfigFile := ⟨config.content, uid, gid, mode⟩
    .ok (sha256 (digestInput file), file)

/-- A Config and where a container mounts it. -/
abbrev Mounted := ConfigSpec × ConfigMount

/-- The Configs that a spec mounts. Admission rejects mounts of Configs it does not declare. -/
def mountedConfigs (spec : Deploy.ResolvedServiceSpec) : List Mounted :=
  spec.mountGraph.configMounts.filterMap fun mount =>
    (spec.mountGraph.configs.find? (·.name == mount.configName)).map (·, mount)

/-! ## States -/

/-- The spec store: the containers' specs by ID. -/
abbrev Rows := List (ContainerId × Deploy.ResolvedServiceSpec)

/-- Whether a name has the length and the digits of a digest, of either case. -/
def digestLike (name : String) : Bool :=
  name.toList.length == 64 && name.toList.all fun c =>
    c.isDigit || ('a' ≤ c && c ≤ 'f') || ('A' ≤ c && c ≤ 'F')

def putRow (rows : Rows) (id : ContainerId) (spec : Deploy.ResolvedServiceSpec) : Rows :=
  rows.filter (·.1 != id) ++ [(id, spec)]

def referencedConfigNames (rows : Rows) : Except InvalidConfig (List D) :=
  (rows.flatMap fun row => mountedConfigs row.2).mapM fun mounted =>
    (configIdentity sha256 mounted.1 mounted.2).map Prod.fst

/-- Where the operation that holds the lock stands. -/
inductive Phase (D : Type)
  | idle
  | materializing (spec : Deploy.ResolvedServiceSpec) (rest : List Mounted)
  | creating (spec : Deploy.ResolvedServiceSpec)
  | putting (spec : Deploy.ResolvedServiceSpec) (id : ContainerId)
  | collecting (referenced : List D) (entries : List (FileName D))

structure State (D : Type) where
  disk : FileName D → Option ConfigFile
  rows : Rows
  phase : Phase D

/-- How a collection begins: with the names of the stored specs and the entries of the directory in
any order, or with neither. -/
inductive Collects (rows : Rows) : Phase D → Prop
  | entered {referenced : List D} (entries : List (FileName D))
      (hread : referencedConfigNames sha256 rows = .ok referenced) :
      Collects rows (.collecting referenced entries)
  | failed : Collects rows .idle

variable [DecidableEq D]

/-- One effect of an operation that holds the lock, or the daemon's restart. -/
inductive Step : State D → State D → Prop
  | begin {disk rows} (spec : Deploy.ResolvedServiceSpec) :
      Step ⟨disk, rows, .idle⟩ ⟨disk, rows, .materializing spec (mountedConfigs spec)⟩
  -- The file under a temporary name is created, written, given its owner and mode, or removed.
  | temporary {disk rows spec rest} (process counter : Nat) (file : Option ConfigFile) :
      Step ⟨disk, rows, .materializing spec rest⟩
        ⟨Function.update disk (.temporary process counter) file, rows, .materializing spec rest⟩
  | rename {disk rows spec rest} {mounted : Mounted} {process counter : Nat} {name : D}
      {file : ConfigFile} (hidentity : configIdentity sha256 mounted.1 mounted.2 = .ok (name, file))
      (hwritten : disk (.temporary process counter) = some file) :
      Step ⟨disk, rows, .materializing spec (mounted :: rest)⟩
        ⟨Function.update (Function.update disk (.temporary process counter) none) (.config name)
          file, rows, .materializing spec rest⟩
  -- A Config without an identity, and any failure before or after a rename, end the creation.
  | unmaterialized {disk rows spec rest} :
      Step ⟨disk, rows, .materializing spec rest⟩ ⟨disk, rows, .idle⟩
  | materialized {disk rows spec} :
      Step ⟨disk, rows, .materializing spec []⟩ ⟨disk, rows, .creating spec⟩
  | matched {disk rows spec} : Step ⟨disk, rows, .creating spec⟩ ⟨disk, rows, .idle⟩
  | uncreated {disk rows spec phase} (hcollects : Collects sha256 rows phase) :
      Step ⟨disk, rows, .creating spec⟩ ⟨disk, rows, phase⟩
  | created {disk rows spec} (id : ContainerId) :
      Step ⟨disk, rows, .creating spec⟩ ⟨disk, rows, .putting spec id⟩
  | put {disk rows spec id} :
      Step ⟨disk, rows, .putting spec id⟩ ⟨disk, putRow rows id spec, .idle⟩
  -- A write that is reported to have failed may have been made.
  | unput {disk rows spec id later phase} (hlater : later = rows ∨ later = putRow rows id spec)
      (hcollects : Collects sha256 later phase) :
      Step ⟨disk, rows, .putting spec id⟩ ⟨disk, later, phase⟩
  | remove {disk rows phase} {id : ContainerId} (hstored : id ∈ rows.map Prod.fst)
      (hcollects : Collects sha256 (rows.filter (·.1 != id)) phase) :
      Step ⟨disk, rows, .idle⟩ ⟨disk, rows.filter (·.1 != id), phase⟩
  -- An entry whose name is referenced or not a digest, or that is not a file.
  | retain {disk rows referenced entry entries} :
      Step ⟨disk, rows, .collecting referenced (entry :: entries)⟩
        ⟨disk, rows, .collecting referenced entries⟩
  | reclaim {disk rows referenced name entries} (hunreferenced : name ∉ referenced) :
      Step ⟨disk, rows, .collecting referenced (.config name :: entries)⟩
        ⟨Function.update disk (.config name) none, rows, .collecting referenced entries⟩
  | reclaimOther {disk rows referenced entries} {name : String} (hlike : digestLike name = true) :
      Step ⟨disk, rows, .collecting referenced (.other name :: entries)⟩
        ⟨Function.update disk (.other name) none, rows, .collecting referenced entries⟩
  -- The end of the entries, or an entry that could not be read or removed.
  | collected {disk rows referenced entries} :
      Step ⟨disk, rows, .collecting referenced entries⟩ ⟨disk, rows, .idle⟩
  | restart {disk rows phase} : Step ⟨disk, rows, phase⟩ ⟨disk, rows, .idle⟩

/-- A Machine with no stored spec, whatever is in its directory. -/
def State.Initial (state : State D) : Prop := state.rows = [] ∧ state.phase = .idle

def Reachable (state : State D) : Prop :=
  ∃ initial : State D, initial.Initial ∧ Relation.ReflTransGen (Step sha256) initial state

end

/-! ## Names -/

section

variable {D : Type} {sha256 : Bytes → D} {mounted other : Mounted} {name : D}
  {file file' : ConfigFile}

theorem configIdentity_eq_ok
    (h : configIdentity sha256 mounted.1 mounted.2 = .ok (name, file)) :
    name = sha256 (digestInput file) ∧ file.uid < 2 ^ 32 ∧ file.gid < 2 ^ 32 ∧
      file.mode < 2 ^ 32 := by
  simp only [configIdentity] at h
  split_ifs at h with huid hgid hmode
  obtain ⟨rfl, rfl⟩ := Prod.mk.inj (Except.ok.inj h)
  exact ⟨rfl, by simpa using huid, by simpa using hgid, by simp only; omega⟩

/-- The digested bytes determine the file: equal lengths leave the content no choice of an end. -/
theorem digestInput_inj (huid : file.uid < 2 ^ 32) (hgid : file.gid < 2 ^ 32)
    (hmode : file.mode < 2 ^ 32) (huid' : file'.uid < 2 ^ 32) (hgid' : file'.gid < 2 ^ 32)
    (hmode' : file'.mode < 2 ^ 32) (h : digestInput file = digestInput file') : file = file' := by
  have hlength : file.content.length = file'.content.length := by
    simpa [digestInput] using congrArg List.length h
  obtain ⟨h, hm⟩ := List.append_inj' h (by simp)
  obtain ⟨h, hg⟩ := List.append_inj' h (by simp)
  obtain ⟨h, hu⟩ := List.append_inj' h (by simp)
  obtain ⟨-, hcontent⟩ := List.append_inj' h (by simpa using hlength)
  have hinj : Function.Injective UInt8.toFin := fun _ _ => UInt8.toFin_inj.mp
  cases file
  cases file'
  congr 1
  · exact hinj.list_map hcontent
  · exact le_inj huid huid' hu
  · exact le_inj hgid hgid' hg
  · exact le_inj hmode hmode' hm

theorem file_eq_of_name (hsha : Function.Injective sha256)
    (h : configIdentity sha256 mounted.1 mounted.2 = .ok (name, file))
    (h' : configIdentity sha256 other.1 other.2 = .ok (name, file')) : file = file' := by
  obtain ⟨rfl, huid, hgid, hmode⟩ := configIdentity_eq_ok h
  obtain ⟨hname, huid', hgid', hmode'⟩ := configIdentity_eq_ok h'
  exact digestInput_inj huid hgid hmode huid' hgid' hmode' (hsha hname)

end

/-! ## Files on disk -/

section

variable {D : Type} (sha256 : Bytes → D)

/-- The file of a mounted Config is there, with its content, owner and mode. -/
def OnDisk (disk : FileName D → Option ConfigFile) (mounted : Mounted) : Prop :=
  ∃ name file, configIdentity sha256 mounted.1 mounted.2 = .ok (name, file) ∧
    disk (.config name) = some file

/-- Every Config that a stored spec mounts has the property. -/
def EachMounted (rows : Rows) (P : Mounted → Prop) : Prop :=
  ∀ row ∈ rows, ∀ mounted ∈ mountedConfigs row.2, P mounted

/-- What an operation under way has done and read so far. -/
def Phase.Sound (disk : FileName D → Option ConfigFile) (rows : Rows) : Phase D → Prop
  | .idle => True
  | .materializing spec rest => ∀ mounted ∈ mountedConfigs spec, mounted ∈ rest ∨
      OnDisk sha256 disk mounted
  | .creating spec => ∀ mounted ∈ mountedConfigs spec, OnDisk sha256 disk mounted
  | .putting spec _ => ∀ mounted ∈ mountedConfigs spec, OnDisk sha256 disk mounted
  | .collecting referenced _ => EachMounted rows fun mounted =>
      ∀ name file, configIdentity sha256 mounted.1 mounted.2 = .ok (name, file) → name ∈ referenced

structure State.Sound (state : State D) : Prop where
  stored : EachMounted state.rows (OnDisk sha256 state.disk)
  phase : state.phase.Sound sha256 state.disk state.rows

variable {sha256} {disk disk' : FileName D → Option ConfigFile} {rows : Rows} {id : ContainerId}
  {spec : Deploy.ResolvedServiceSpec} {mounted : Mounted} {name : D} {file : ConfigFile}
  {phase : Phase D}

theorem EachMounted.imp {P Q : Mounted → Prop} (h : EachMounted rows P) (hPQ : ∀ m, P m → Q m) :
    EachMounted rows Q :=
  fun row hrow mounted hmounted => hPQ mounted (h row hrow mounted hmounted)

theorem EachMounted.put {P : Mounted → Prop} (h : EachMounted rows P)
    (hspec : ∀ mounted ∈ mountedConfigs spec, P mounted) : EachMounted (putRow rows id spec) P := by
  intro row hrow
  rcases List.mem_append.mp hrow with hrow | hrow
  · exact h row (List.mem_of_mem_filter hrow)
  · rw [List.mem_singleton.mp hrow]
    exact hspec

theorem EachMounted.filter {P : Mounted → Prop} (h : EachMounted rows P) (p : _ → Bool) :
    EachMounted (rows.filter p) P :=
  fun row hrow => h row (List.mem_of_mem_filter hrow)

theorem Collects.sound (h : Collects sha256 rows phase) : phase.Sound sha256 disk rows := by
  cases h with
  | failed => trivial
  | entered entries hread =>
    intro row hrow mounted hmounted name file hidentity
    have hmem : mounted ∈ rows.flatMap fun row => mountedConfigs row.2 :=
      List.mem_flatMap.mpr ⟨row, hrow, hmounted⟩
    obtain ⟨name', hname', heq⟩ := Run.exists_ok_of_mem_mapM hread hmem
    rw [hidentity] at heq
    cases heq
    exact hname'

variable [DecidableEq D]

theorem OnDisk.update {entry : FileName D} (h : OnDisk sha256 disk mounted)
    (hentry : ∀ name, FileName.config name ≠ entry) (written : Option ConfigFile) :
    OnDisk sha256 (Function.update disk entry written) mounted := by
  obtain ⟨name, file, hidentity, hdisk⟩ := h
  exact ⟨name, file, hidentity, by rw [Function.update_of_ne (hentry name), hdisk]⟩

theorem OnDisk.temporary (h : OnDisk sha256 disk mounted) (process counter : Nat)
    (written : Option ConfigFile) :
    OnDisk sha256 (Function.update disk (.temporary process counter) written) mounted :=
  h.update (by simp) written

theorem OnDisk.rename (hsha : Function.Injective sha256) {other : Mounted}
    (hidentity : configIdentity sha256 other.1 other.2 = .ok (name, file))
    (h : OnDisk sha256 disk mounted) :
    OnDisk sha256 (Function.update disk (.config name) (some file)) mounted := by
  obtain ⟨name', file', hidentity', hdisk⟩ := h
  refine ⟨name', file', hidentity', ?_⟩
  by_cases hname : name' = name
  · subst hname
    rw [Function.update_self, file_eq_of_name hsha hidentity hidentity']
  · rw [Function.update_of_ne (by simpa using hname), hdisk]

theorem OnDisk.reclaim {referenced : List D} (hunreferenced : name ∉ referenced)
    (hretained : ∀ name file, configIdentity sha256 mounted.1 mounted.2 = .ok (name, file) →
      name ∈ referenced)
    (h : OnDisk sha256 disk mounted) :
    OnDisk sha256 (Function.update disk (.config name) none) mounted := by
  obtain ⟨name', file', hidentity, hdisk⟩ := h
  have hne : name' ≠ name := fun heq => hunreferenced (heq ▸ hretained name' file' hidentity)
  exact ⟨name', file', hidentity, by rw [Function.update_of_ne (by simpa using hne), hdisk]⟩

/-! ## Runs -/

/-- One effect keeps the files of the stored specs, and what its operation relies on. -/
theorem State.Sound.step (hsha : Function.Injective sha256) {state later : State D}
    (hsound : state.Sound sha256) (hstep : Step sha256 state later) : later.Sound sha256 := by
  obtain ⟨hstored, hphase⟩ := hsound
  cases hstep with
  | begin spec => exact ⟨hstored, fun mounted hmounted => .inl hmounted⟩
  | temporary process counter file =>
    exact ⟨hstored.imp fun _ h => h.temporary process counter file, fun mounted hmounted =>
      (hphase mounted hmounted).imp_right fun h => h.temporary process counter file⟩
  | rename hidentity hwritten =>
    refine ⟨hstored.imp fun _ h => (h.temporary _ _ none).rename hsha hidentity,
      fun mounted hmounted => ?_⟩
    rcases hphase mounted hmounted with hrest | h
    · rcases List.mem_cons.mp hrest with rfl | hrest
      · exact .inr ⟨_, _, hidentity, Function.update_self ..⟩
      · exact .inl hrest
    · exact .inr ((h.temporary _ _ none).rename hsha hidentity)
  | materialized =>
    exact ⟨hstored, fun mounted hmounted =>
      (hphase mounted hmounted).resolve_left (List.not_mem_nil)⟩
  | unmaterialized => exact ⟨hstored, trivial⟩
  | matched => exact ⟨hstored, trivial⟩
  | uncreated hcollects => exact ⟨hstored, hcollects.sound⟩
  | created id => exact ⟨hstored, hphase⟩
  | put => exact ⟨hstored.put hphase, trivial⟩
  | unput hlater hcollects =>
    refine ⟨?_, hcollects.sound⟩
    rcases hlater with rfl | rfl
    · exact hstored
    · exact hstored.put hphase
  | remove hmem hcollects => exact ⟨hstored.filter _, hcollects.sound⟩
  | retain => exact ⟨hstored, hphase⟩
  | reclaim hunreferenced =>
    exact ⟨fun row hrow mounted hmounted =>
      (hstored row hrow mounted hmounted).reclaim hunreferenced
      (hphase row hrow mounted hmounted), hphase⟩
  | reclaimOther => exact ⟨hstored.imp fun _ h => h.update (by simp) none, hphase⟩
  | collected => exact ⟨hstored, trivial⟩
  | restart => exact ⟨hstored, trivial⟩

theorem Reachable.sound (hsha : Function.Injective sha256) {state : State D}
    (hreach : Reachable sha256 state) : state.Sound sha256 := by
  obtain ⟨initial, ⟨hrows, hphase⟩, hrun⟩ := hreach
  induction hrun with
  | refl =>
    refine ⟨?_, by rw [hphase]; trivial⟩
    rw [hrows]
    intro row hrow
    cases hrow
  | tail _ hstep ih => exact ih.step hsha hstep

/-- Only a collection takes a Config's file away, and only one it does not retain. -/
theorem Step.vanished {state later : State D} (hstep : Step sha256 state later) {name : D}
    (hthere : state.disk (.config name) ≠ none) (hgone : later.disk (.config name) = none) :
    ∃ referenced entries, state.phase = .collecting referenced entries ∧ name ∉ referenced := by
  cases hstep with
  | temporary process counter file =>
    dsimp only at hgone
    rw [Function.update_of_ne (by simp)] at hgone
    exact absurd hgone hthere
  | @rename _ _ _ _ _ _ _ name' _ hidentity hwritten =>
    dsimp only at hgone
    by_cases hname : name = name'
    · rw [hname, Function.update_self] at hgone
      cases hgone
    · rw [Function.update_of_ne (by simpa using hname), Function.update_of_ne (by simp)] at hgone
      exact absurd hgone hthere
  | @reclaim _ _ referenced name' entries hunreferenced =>
    by_cases hname : name = name'
    · exact ⟨referenced, _, rfl, hname ▸ hunreferenced⟩
    · dsimp only at hgone
      rw [Function.update_of_ne (by simpa using hname)] at hgone
      exact absurd hgone hthere
  | reclaimOther =>
    dsimp only at hgone
    rw [Function.update_of_ne (by simp)] at hgone
    exact absurd hgone hthere
  | _ => exact absurd hgone hthere

/-- After any run every stored spec has each Config it mounts on disk, what a step takes away is
mounted by no stored spec, and mounts share a file only if its content, owner and mode agree. -/
theorem configs_stay_while_mounted (hsha : Function.Injective sha256) :
    (∀ state : State D, Reachable sha256 state →
      EachMounted state.rows (OnDisk sha256 state.disk) ∧
      ∀ later, Step sha256 state later → ∀ name, state.disk (.config name) ≠ none →
        later.disk (.config name) = none →
        EachMounted state.rows fun mounted =>
          ∀ file, configIdentity sha256 mounted.1 mounted.2 ≠ .ok (name, file)) ∧
    ∀ (mounted other : Mounted) (name : D) (file file' : ConfigFile),
      configIdentity sha256 mounted.1 mounted.2 = .ok (name, file) →
      configIdentity sha256 other.1 other.2 = .ok (name, file') → file = file' := by
  refine ⟨fun state hreach => ⟨(hreach.sound hsha).stored, ?_⟩, fun _ _ _ _ _ h h' =>
    file_eq_of_name hsha h h'⟩
  intro later hstep name hthere hgone row hrow mounted hmounted file hidentity
  obtain ⟨referenced, entries, hcollecting, hunreferenced⟩ := hstep.vanished hthere hgone
  have hphase := (hreach.sound hsha).phase
  rw [hcollecting] at hphase
  exact hunreferenced (hphase row hrow mounted hmounted name file hidentity)

end

/-! ## A container with settings -/

namespace Sample

def settings : Mounted := (⟨"settings", [107, 61, 118, 10]⟩, ⟨"settings", none, some 7, none, none⟩)

def spec : Deploy.ResolvedServiceSpec where
  serviceId := "web"
  name := ⟨"web", Eq.refl true⟩
  mode := .replicated ⟨1, Nat.one_pos⟩
  container := { image := "web", pullPolicy := .missing }
  placement := ⟨[]⟩
  ports := []
  mountGraph := ⟨.empty, [settings.1], [settings.2]⟩
  preDeploy := none
  update := ⟨.startFirst, none⟩

def file : ConfigFile := ⟨[107, 61, 118, 10], 7, 0, 0o444⟩

def written : FileName Bytes → Option ConfigFile :=
  Function.update (fun _ => none) (.temporary 1 0) file

/-- The disk once the settings have their name. -/
def disk : FileName Bytes → Option ConfigFile :=
  Function.update (Function.update written (.temporary 1 0) none) (.config (digestInput file)) file

theorem identity : configIdentity id settings.1 settings.2 = .ok (digestInput file, file) := by
  rfl

theorem reachable : Reachable id (⟨disk, putRow [] "c1" spec, .idle⟩ : State Bytes) := by
  refine ⟨⟨fun _ => none, [], .idle⟩, ⟨rfl, rfl⟩, ?_⟩
  apply Relation.ReflTransGen.tail _ .put
  apply Relation.ReflTransGen.tail _ (.created "c1")
  apply Relation.ReflTransGen.tail _ .materialized
  apply Relation.ReflTransGen.tail _ (.rename identity (Function.update_self ..))
  apply Relation.ReflTransGen.tail _ (.temporary 1 0 (some file))
  exact .single (.begin spec)

end Sample

theorem stored_settings_stay : mountedConfigs Sample.spec = [Sample.settings] ∧
    EachMounted (putRow [] "c1" Sample.spec) (OnDisk id Sample.disk) :=
  ⟨rfl, ((configs_stay_while_mounted Function.injective_id).1 _ Sample.reachable).1⟩

end Ployz.Machine.Configs
