import Ployz.Build.Ignore
import Mathlib.Data.List.Induction
import Mathlib.Data.List.Sort
import Mathlib.Logic.Function.Basic
import Mathlib.Logic.Relation

/-!
# Received uploads

A Build Machine stages an upload frame by frame: directories and files at once, links only at Finish
and only if a walk over the links that are to be made never leaves `source`. `osStep` is what the
operating system does with a path in the staging tree. `upload_contained_iff` says when the one
keeps the other inside `source`, for every accepted sequence of frames, and when a rejected frame
keeps an upload from being completed.
-/

namespace Ployz.Build

open Ignore (Name RelPath)

abbrev Bytes := List UInt8

/-! ## Paths as they are written -/

/-- `st_mode`, with the bits of the file type. -/
abbrev Mode := BitVec 32

inductive Component
  | rootDir
  | curDir
  | parentDir
  | normal (name : Name)
deriving DecidableEq

/-- What stands between two slashes; nothing is no component. -/
def Component.parse (segment : Bytes) : Option Component :=
  if hdots : segment = [46] ∨ segment = [46, 46] then
    some (if segment = [46] then .curDir else .parentDir)
  else if hname : segment ≠ [] ∧ 47 ∉ segment then
    some (.normal ⟨segment, hname.1, hname.2, not_or.mp hdots⟩)
  else none

/-- `Path::components`: a leading slash is the root, and a dot counts only as the first of a
relative path. -/
def components (text : Bytes) : List Component :=
  match text.splitOn 47 with
  | [] => []
  | first :: rest =>
    (if first = [] ∧ rest ≠ [] then [.rootDir] else (Component.parse first).toList) ++
      (rest.filterMap Component.parse).filter (· ≠ .curDir)

/-- How a path is written after its last name: nothing, slashes, or a dot somewhere between them. -/
inductive Ending
  | name
  | slash
  | dot
deriving DecidableEq

def Ending.of (text : Bytes) : Ending :=
  let trailing := (text.splitOn 47).reverse.takeWhile fun segment => segment = [] ∨ segment = [46]
  if [46] ∈ trailing then .dot else if trailing = [] then .name else .slash

/-! ## Frames -/

structure InputError where
  message : String
deriving DecidableEq

inductive Kind
  | directory
  | file (size : Nat)
  | link (target : Bytes)
deriving DecidableEq

inductive Input
  | entry (path : Bytes) (kind : Kind) (mode : Mode)
  | data (bytes : Bytes)
  | finish
  /-- A check, a start or a cancellation. -/
  | control
deriving DecidableEq

def chunkSize : Nat := 32 * 1024
def sourceLimit : Nat := 2 * 1024 * 1024 * 1024
def privateLimit : Nat := 16 * 1024 * 1024
def entryLimit : Nat := 100000

def sourceName : Name := ⟨[115, 111, 117, 114, 99, 101], by decide, by decide, by decide⟩

def privateName : Name := ⟨[112, 114, 105, 118, 97, 116, 101], by decide, by decide, by decide⟩

def composeName : Name :=
  ⟨[99, 111, 109, 112, 111, 115, 101, 46, 121, 97, 109, 108], by decide, by decide, by decide⟩

inductive Staged
  | dir (mode : Mode)
  | file (mode : Mode) (bytes : Bytes)
  | link (target : Bytes)
deriving DecidableEq

inductive UploadState
  | receiving
  | failed
  | finished
deriving DecidableEq

structure Upload where
  /-- The staging tree below its root, which is a directory. -/
  disk : RelPath → Option Staged
  paths : List RelPath
  directories : List (RelPath × Mode)
  /-- The links to make, in the order of their paths. -/
  links : List (RelPath × Bytes)
  /-- A link's path ends in a slash or a dot. -/
  unmade : Bool
  /-- The file that is open, and what it still misses. -/
  file : Option (RelPath × Nat)
  sourceBytes : Nat
  privateBytes : Nat
  metadataBytes : Nat
  state : UploadState

/-! ## Links -/

def linkAt (links : List (RelPath × Bytes)) (path : RelPath) : Option Bytes :=
  (links.find? (·.1 == path)).map (·.2)

def escapes : InputError := ⟨"Build link escapes source staging"⟩

def cyclic : InputError := ⟨"Build source has a cyclic link"⟩

/-- A failure of the operating system, by its kind. -/
def ioError (kind : String) : InputError := ⟨"stage Build input: " ++ kind⟩

def notFound : InputError := ioError "entity not found"

/-- Where the components of a path lead before the next link. -/
inductive Scan
  | done (resolved : RelPath)
  | escape
  | link (resolved : RelPath) (target : Bytes) (rest : List Component)
deriving DecidableEq

/-- The inner loop of a link's check. -/
def scan (links : List (RelPath × Bytes)) (resolved : RelPath) : List Component → Scan
  | [] => .done resolved
  | .curDir :: rest => scan links resolved rest
  | .parentDir :: rest =>
    if resolved ≠ [sourceName] ∧ resolved ≠ [] then scan links resolved.dropLast rest else .escape
  | .rootDir :: _ => .escape
  | .normal name :: rest =>
    if (resolved ++ [name]).head? = some sourceName then
      match linkAt links (resolved ++ [name]) with
      | some target => .link resolved target rest
      | none => scan links (resolved ++ [name]) rest
    else .escape

/-- What the outer loop does with a scan: a link leads it on. -/
def Scan.onLink (next : RelPath → Bytes → List Component → Except InputError Unit) :
    Scan → Except InputError Unit
  | .done _ => .ok ()
  | .escape => .error escapes
  | .link resolved target rest => next resolved target rest

/-- The outer loop: so many links may still be followed. -/
def follow (links : List (RelPath × Bytes)) : Nat → RelPath → List Component →
    Except InputError Unit
  | 0, resolved, todo => (scan links resolved todo).onLink fun _ _ _ => .error cyclic
  | left + 1, resolved, todo => (scan links resolved todo).onLink fun resolved target rest =>
      follow links left resolved (components target ++ rest)

/-- Follow each link hop inside source, including links through other uploaded links. Dangling links
are allowed, but even dangling targets cannot escape. -/
def validateLink (path : RelPath) (links : List (RelPath × Bytes)) : Except InputError Unit :=
  follow links 40 [] (path.map .normal)

/-! ## Receiving -/

namespace Upload

def new : Upload where
  disk := fun _ => none
  paths := []
  directories := []
  links := []
  unmade := false
  file := none
  sourceBytes := 0
  privateBytes := 0
  metadataBytes := 0
  state := .receiving

/-- Whether a path of the staging tree is a directory; its root is. -/
def isDir (disk : RelPath → Option Staged) (path : RelPath) : Bool :=
  path.isEmpty || disk path matches some (.dir _)

/-- Why the parent of an entry is no directory: nothing is there, something is on the way to it, or
it is something else itself. -/
def parentError (disk : RelPath → Option Staged) (parent : RelPath) : InputError :=
  if (disk parent).isSome then ⟨"Build entry parent is not a directory"⟩
  else if parent.inits.any fun above => (disk above).isSome && !isDir disk above then
    ioError "not a directory"
  else notFound

def normalName : Component → Except InputError Name
  | .normal name => .ok name
  | .rootDir | .curDir | .parentDir => .error ⟨"Build entry path escapes staging"⟩

def receivedPath (bytes : Bytes) : Except InputError RelPath := do
  if bytes.isEmpty || bytes.length > 4096 || bytes.contains 0 then
    throw ⟨"invalid Build entry path"⟩
  let parts := components bytes
  if parts.length > 128 then throw ⟨"Build entry path escapes staging"⟩
  parts.mapM normalName

def acceptData (upload : Upload) (bytes : Bytes) : Except InputError Upload := do
  if bytes.isEmpty || bytes.length > chunkSize then throw ⟨"invalid Build data frame size"⟩
  let some (path, remaining) := upload.file | throw ⟨"Build data has no file header"⟩
  if remaining < bytes.length then throw ⟨"Build file exceeds declared size"⟩
  return { upload with
    file := some (path, remaining - bytes.length)
    disk := match upload.disk path with
      | some (.file mode written) =>
        Function.update upload.disk path (some (.file mode (written ++ bytes)))
      | _ => upload.disk }

def lessBytes (a b : Bytes) : Bool := a.lex b fun x y => x.toNat.blt y.toNat

def Before (link other : RelPath × Bytes) : Prop :=
  (other.1.map (·.bytes)).lex (link.1.map (·.bytes)) lessBytes = false

instance decidableBefore : DecidableRel Before := fun _ _ => inferInstanceAs (Decidable (_ = _))

def acceptKind (upload : Upload) (relative : RelPath) (ending : Ending) (source : Bool)
    (mode : Mode) :
    Kind → Except InputError Upload
  | .directory => do
    if relative = [composeName] then throw ⟨"Build recipe must be a regular file"⟩
    if ending = .dot then throw notFound
    return { upload with
      disk := Function.update upload.disk relative (some (.dir 0o700))
      directories := upload.directories ++ [(relative, if source then mode else 0o700)] }
  | .file size => do
    let total := (if source then upload.sourceBytes else upload.privateBytes) + size
    if total > (if source then sourceLimit else privateLimit) then
      throw ⟨"Build upload exceeds byte limit"⟩
    if ending = .dot then throw notFound
    if ending = .slash then throw (ioError "is a directory")
    return { upload with
      sourceBytes := if source then total else upload.sourceBytes
      privateBytes := if source then upload.privateBytes else total
      disk := Function.update upload.disk relative
        (some (.file (if source then mode else 0o600) []))
      file := some (relative, size) }
  | .link target => do
    if !source || target.isEmpty || target.length > 4096 || target.contains 0 then
      throw ⟨"invalid Build source link"⟩
    return { upload with
      links := upload.links.orderedInsert Before (relative, target)
      unmade := upload.unmade || ending != .name }

def linkSize : Kind → Nat
  | .link target => target.length
  | .directory | .file _ => 0

def acceptEntry (upload : Upload) (path : Bytes) (kind : Kind) (mode : Mode) :
    Except InputError Upload := do
  let metadataBytes := upload.metadataBytes + (path.length + linkSize kind)
  if metadataBytes > privateLimit then throw ⟨"Build entry metadata exceeds byte limit"⟩
  let relative ← receivedPath path
  let source := relative.head? = some sourceName
  if ¬ source ∧ relative.head? ≠ some privateName ∧ relative ≠ [composeName] then
    throw ⟨"Build entry is outside source and private material"⟩
  if mode &&& ~~~0o777 ≠ 0 then throw ⟨"Build entry has special permission bits"⟩
  if upload.paths.length ≥ entryLimit ∨ relative ∈ upload.paths then
    throw ⟨"Build upload exceeds entry limit or repeats a path"⟩
  if isDir upload.disk relative.dropLast = false then
    throw (parentError upload.disk relative.dropLast)
  acceptKind { upload with metadataBytes, paths := relative :: upload.paths } relative (.of path)
    source
    mode kind

/-- The staging tree with the links that were held back. -/
def linked (upload : Upload) : RelPath → Option Staged := fun path =>
  match linkAt upload.links path with
  | some target => some (.link target)
  | none => upload.disk path

def acceptFinish (upload : Upload) : Except InputError Upload := do
  forM upload.links fun (path, _) => validateLink path upload.links
  if upload.unmade then throw notFound
  return { upload with disk := upload.linked, state := .finished }

def acceptNext (upload : Upload) : Input → Except InputError Upload
  | .data bytes => upload.acceptData bytes
  | frame => do
    if let some (_, remaining) := upload.file then
      if remaining ≠ 0 then throw ⟨"Build upload contains an incomplete file"⟩
    let upload := { upload with file := none }
    match frame with
    | .entry path kind mode => upload.acceptEntry path kind mode
    | .finish => upload.acceptFinish
    | .control | .data _ => throw ⟨"unexpected Build upload frame"⟩

/-- A malformed frame permanently invalidates this upload. What it changed before it failed stays
with an upload that takes nothing more. -/
def accept (upload : Upload) (frame : Input) : Upload × Except InputError Unit :=
  if upload.state ≠ .receiving then (upload, .error ⟨"Build upload is already closed"⟩)
  else match upload.acceptNext frame with
    | .ok next => (next, .ok ())
    | .error error => ({ upload with state := .failed }, .error error)

/-- Seal a successfully received capture for execution. -/
def complete (upload : Upload) : Except InputError Upload :=
  if upload.state = .finished then .ok upload else .error ⟨"Build upload was not completed"⟩

def run (frames : List Input) : Upload :=
  frames.foldl (fun upload frame => (upload.accept frame).1) new

end Upload

/-! ## What an accepted frame does -/

variable {target : Bytes}

namespace Upload

variable {upload next : Upload}

variable {relative : RelPath} {ending : Ending} {source : Bool} {mode : Mode}

theorem mapM_normalName {parts : List Component} :
    parts.mapM normalName = .ok relative ↔ parts = relative.map .normal := by
  induction parts generalizing relative with
  | nil => cases relative <;> simp
  | cons part parts ih =>
    simp only [List.mapM_cons, Run.bind_eq_ok, Run.pure_eq_ok, ih]
    constructor
    · rintro ⟨name, hname, rest, rfl, rfl⟩
      cases part with
      | normal name' =>
        obtain rfl := Except.ok.inj hname
        rfl
      | rootDir | curDir | parentDir => cases hname
    · intro h
      cases relative with
      | nil => cases h
      | cons name rest =>
        obtain ⟨rfl, rfl⟩ := List.cons.inj h
        exact ⟨name, rfl, rest, rfl, rfl⟩

theorem receivedPath_eq_ok {bytes : Bytes} :
    receivedPath bytes = .ok relative ↔ bytes ≠ [] ∧ bytes.length ≤ 4096 ∧ 0 ∉ bytes ∧
      relative.length ≤ 128 ∧ components bytes = relative.map .normal := by
  simp only [receivedPath, Run.guard_eq_ok, mapM_normalName, Bool.or_eq_true, List.isEmpty_iff,
    decide_eq_true_eq, List.contains_iff_mem, not_or, not_lt, gt_iff_lt]
  constructor
  · rintro ⟨⟨⟨hne, hlong⟩, hzero⟩, hdeep, hparts⟩
    exact ⟨hne, hlong, hzero, by simpa [hparts] using hdeep, hparts⟩
  · rintro ⟨hne, hlong, hzero, hdeep, hparts⟩
    exact ⟨⟨⟨hne, hlong⟩, hzero⟩, by simpa [hparts] using hdeep, hparts⟩

/-- The staging tree after some bytes were written to a file. -/
theorem acceptData_eq_ok {bytes : Bytes} : upload.acceptData bytes = .ok next ↔
    bytes ≠ [] ∧ bytes.length ≤ chunkSize ∧ ∃ path remaining, upload.file = some (path, remaining) ∧
      bytes.length ≤ remaining ∧ next = { upload with
        file := some (path, remaining - bytes.length)
        disk := match upload.disk path with
          | some (.file mode written) =>
            Function.update upload.disk path (some (.file mode (written ++ bytes)))
          | _ => upload.disk } := by
  cases hfile : upload.file with
  | none => simp [acceptData, Run.guard_eq_ok, hfile]
  | some opened =>
    obtain ⟨path, remaining⟩ := opened
    simp only [acceptData, hfile, Run.guard_eq_ok, Run.pure_eq_ok, Bool.or_eq_true,
      List.isEmpty_iff, decide_eq_true_eq, not_or, not_lt, gt_iff_lt, Option.some.injEq,
      Prod.mk.injEq]
    constructor
    · rintro ⟨⟨hne, hsize⟩, hfits, rfl⟩
      exact ⟨hne, hsize, path, remaining, ⟨rfl, rfl⟩, hfits, rfl⟩
    · rintro ⟨hne, hsize, _, _, ⟨rfl, rfl⟩, hfits, rfl⟩
      exact ⟨⟨hne, hsize⟩, hfits, rfl⟩

theorem acceptKind_directory :
    acceptKind upload relative ending source mode .directory = .ok next ↔
      relative ≠ [composeName] ∧ ending ≠ .dot ∧ next = { upload with
        disk := Function.update upload.disk relative (some (.dir 0o700))
        directories := upload.directories ++ [(relative, if source then mode else 0o700)] } := by
  simp only [acceptKind, Run.guard_eq_ok, Run.pure_eq_ok]
  exact and_congr_right fun _ => and_congr_right fun _ => eq_comm

theorem acceptKind_file {size : Nat} :
    acceptKind upload relative ending source mode (.file size) = .ok next ↔
      (if source then upload.sourceBytes else upload.privateBytes) + size ≤
        (if source then sourceLimit else privateLimit) ∧ ending ≠ .dot ∧ ending ≠ .slash ∧
      next = { upload with
        sourceBytes :=
          if source then (if source then upload.sourceBytes else upload.privateBytes) + size
          else upload.sourceBytes
        privateBytes := if source then upload.privateBytes
          else (if source then upload.sourceBytes else upload.privateBytes) + size
        disk := Function.update upload.disk relative
          (some (.file (if source then mode else 0o600) []))
        file := some (relative, size) } := by
  simp only [acceptKind, Run.guard_eq_ok, Run.pure_eq_ok, gt_iff_lt, not_lt]
  exact and_congr_right fun _ => and_congr_right fun _ => and_congr_right fun _ => eq_comm

theorem acceptKind_link :
    acceptKind upload relative ending source mode (.link target) = .ok next ↔ source = true ∧
      target ≠ [] ∧ target.length ≤ 4096 ∧ 0 ∉ target ∧
      next = { upload with
        links := upload.links.orderedInsert Before (relative, target)
        unmade := upload.unmade || ending != .name } := by
  simp only [acceptKind, Run.guard_eq_ok, Run.pure_eq_ok, Bool.or_eq_true, Bool.not_eq_eq_eq_not,
    Bool.not_true, List.isEmpty_iff, decide_eq_true_eq, List.contains_iff_mem, not_or, not_lt,
    gt_iff_lt, Bool.not_eq_false, and_assoc]
  exact and_congr_right fun _ => and_congr_right fun _ => and_congr_right fun _ =>
    and_congr_right fun _ => eq_comm

theorem acceptEntry_eq_ok {path : Bytes} {kind : Kind} :
    upload.acceptEntry path kind mode = .ok next ↔
      upload.metadataBytes + (path.length + linkSize kind) ≤ privateLimit ∧
      ∃ relative, receivedPath path = .ok relative ∧
        (relative.head? = some sourceName ∨ relative.head? = some privateName ∨
          relative = [composeName]) ∧
        mode &&& ~~~0o777 = 0 ∧ upload.paths.length < entryLimit ∧ relative ∉ upload.paths ∧
        isDir upload.disk relative.dropLast = true ∧
        acceptKind { upload with
          metadataBytes := upload.metadataBytes + (path.length + linkSize kind)
          paths := relative :: upload.paths } relative (.of path) (relative.head? = some sourceName)
          mode kind = .ok next := by
  simp only [acceptEntry, Run.guard_eq_ok, Run.bind_eq_ok, not_lt, not_le, not_and_or, not_or,
    not_not, ge_iff_le, gt_iff_lt, Bool.not_eq_false, ne_eq]
  constructor
  · rintro ⟨hmetadata, relative, hrelative, hplace, hmode, ⟨hlimit, hnew⟩, hparent, hkind⟩
    exact ⟨hmetadata, relative, hrelative, hplace, hmode, hlimit, hnew, hparent, hkind⟩
  · rintro ⟨hmetadata, relative, hrelative, hplace, hmode, hlimit, hnew, hparent, hkind⟩
    exact ⟨hmetadata, relative, hrelative, hplace, hmode, ⟨hlimit, hnew⟩, hparent, hkind⟩

def Closed (upload : Upload) : Prop :=
  ∀ path remaining, upload.file = some (path, remaining) → remaining = 0

theorem acceptNext_entry {path : Bytes} {kind : Kind} :
    upload.acceptNext (.entry path kind mode) = .ok next ↔
      upload.Closed ∧ acceptEntry { upload with file := none } path kind mode = .ok next := by
  cases hfile : upload.file with
  | none => simp [acceptNext, Closed, hfile]
  | some opened =>
    obtain ⟨opened, remaining⟩ := opened
    by_cases hremaining : remaining = 0 <;> simp [acceptNext, Closed, hfile, hremaining]

theorem acceptNext_finish : upload.acceptNext .finish = .ok next ↔
    upload.Closed ∧ acceptFinish { upload with file := none } = .ok next := by
  cases hfile : upload.file with
  | none => simp [acceptNext, Closed, hfile]
  | some opened =>
    obtain ⟨opened, remaining⟩ := opened
    by_cases hremaining : remaining = 0 <;> simp [acceptNext, Closed, hfile, hremaining]

theorem acceptNext_control : upload.acceptNext .control ≠ .ok next := by
  cases hfile : upload.file with
  | none => simp [acceptNext, hfile]
  | some opened =>
    obtain ⟨opened, remaining⟩ := opened
    by_cases hremaining : remaining = 0 <;> simp [acceptNext, hfile, hremaining]

theorem acceptFinish_eq_ok : upload.acceptFinish = .ok next ↔
    (∀ link ∈ upload.links, validateLink link.1 upload.links = .ok ()) ∧ upload.unmade = false ∧
      next = { upload with disk := upload.linked, state := .finished } := by
  simp only [acceptFinish, Run.bind_eq_ok, Run.guard_eq_ok, Run.pure_eq_ok, Run.forM_eq_ok,
    Bool.not_eq_true]
  constructor
  · rintro ⟨_, hlinks, hmade, rfl⟩
    exact ⟨fun link hlink => hlinks link hlink, hmade, rfl⟩
  · rintro ⟨hlinks, hmade, rfl⟩
    exact ⟨(), fun link hlink => hlinks link hlink, hmade, rfl⟩

end Upload

/-! ## What the operating system does -/

/-- Where a path leads: to a place of the staging tree, or out of it. -/
inductive Place
  | staged (path : RelPath)
  | outside
deriving DecidableEq

/-- One component of a path, from a directory of the staging tree. A link is replaced by its target.
A name that is not there names a place too, but nothing leads on from it. -/
def osStep (disk : RelPath → Option Staged) :
    Place × List Component → Option (Place × List Component)
  | (_, []) => none
  | (.outside, _ :: rest) => some (.outside, rest)
  | (.staged path, part :: rest) =>
    if Upload.isDir disk path then
      match part with
      | .rootDir => some (.outside, rest)
      | .curDir => some (.staged path, rest)
      | .parentDir => some (if path = [] then .outside else .staged path.dropLast, rest)
      | .normal name =>
        match disk (path ++ [name]) with
        | some (.link target) => some (.staged path, components target ++ rest)
        | some (.dir _) | some (.file _ _) | none => some (.staged (path ++ [name]), rest)
    else none

/-- A path leads somewhere from the staging root, however many links are followed. -/
def LeadsTo (disk : RelPath → Option Staged) (parts : List Component) (place : Place) : Prop :=
  Relation.ReflTransGen (fun state next => osStep disk state = some next) (.staged [], parts)
    (place, [])

/-- Every path under `source` leads to a place inside it. -/
def Contained (disk : RelPath → Option Staged) : Prop :=
  ∀ (names : RelPath) (place : Place),
    LeadsTo disk (.normal sourceName :: names.map .normal) place →
    ∃ path, place = .staged path ∧ path.head? = some sourceName

/-! ## The walk of the check and the walk of the system -/

variable {path : RelPath}

section Walks

variable {links : List (RelPath × Bytes)} {disk : RelPath → Option Staged} {pos : RelPath}

theorem linkAt_eq_some (h : linkAt links path = some target) : (path, target) ∈ links := by
  obtain ⟨link, hfind, rfl⟩ := Option.map_eq_some_iff.mp h
  have hpath : link.1 = path := by simpa using List.find?_some hfind
  exact hpath ▸ List.mem_of_find?_eq_some hfind

/-- No part of a path is a link. -/
def Free (links : List (RelPath × Bytes)) (path : RelPath) : Prop :=
  ∀ part, part ≠ [] → part <+: path → linkAt links part = none

theorem Free.dropLast (h : Free links pos) : Free links pos.dropLast := fun part hne hpart =>
  h part hne (hpart.trans (List.dropLast_prefix pos))

theorem Free.append {name : Name} (h : Free links pos)
    (hname : linkAt links (pos ++ [name]) = none) :
    Free links (pos ++ [name]) := by
  intro part hne hpart
  rcases List.prefix_concat_iff.mp hpart with rfl | hpart
  · exact hname
  · exact h part hne hpart

theorem head?_append_of_source (h : pos.head? = some sourceName) (rest : RelPath) :
    (pos ++ rest).head? = some sourceName := by
  cases pos with
  | nil => cases h
  | cons first pos => exact h

/-- The check goes along a path without links as it is written. -/
theorem scan_free (hfree : Free links pos) (hsource : pos.head? = some sourceName)
    (todo : List Component) : scan links [] (pos.map .normal ++ todo) = scan links pos todo := by
  induction pos using List.reverseRecOn generalizing todo with
  | nil => rfl
  | append_singleton pos name ih =>
    have hlast : linkAt links (pos ++ [name]) = none := hfree _ (by simp) List.prefix_rfl
    rw [List.map_append, List.append_assoc]
    cases pos with
    | nil => simp_all [scan]
    | cons first pos =>
      have hrest : Free links (first :: pos) := fun part hne hpart =>
        hfree part hne (hpart.trans (List.prefix_append _ _))
      rw [ih hrest hsource]
      simp only [List.map_cons, List.map_nil, List.cons_append, List.nil_append, scan]
      rw [if_pos (by simpa using hsource)]
      simp only [List.cons_append] at hlast
      simp only [hlast]

/-- The check accepts what is left to do. -/
def Checked (links : List (RelPath × Bytes)) (pos : RelPath) (todo : List Component) : Prop :=
  ∃ left, follow links left pos todo = .ok ()

section

variable {pos' : RelPath} {todo todo' : List Component}

theorem follow_congr (h : scan links pos todo = scan links pos' todo') (left : Nat) :
    follow links left pos todo = follow links left pos' todo' := by
  cases left <;> rw [follow, follow, h]

theorem Checked.congr (h : Checked links pos todo)
    (hscan : scan links pos todo = scan links pos' todo') :
    Checked links pos' todo' := by
  obtain ⟨left, hleft⟩ := h
  exact ⟨left, by rw [← follow_congr hscan, hleft]⟩

theorem Checked.nil : Checked links pos [] := ⟨0, rfl⟩

theorem Checked.ne_escape (h : Checked links pos todo) : scan links pos todo ≠ .escape := by
  obtain ⟨left, hleft⟩ := h
  intro hscan
  cases left <;> rw [follow, hscan] at hleft <;> cases hleft

theorem Checked.link (h : Checked links pos todo)
    (hscan : scan links pos todo = .link pos' target todo') :
    Checked links pos' (components target ++ todo') := by
  obtain ⟨left, hleft⟩ := h
  cases left with
  | zero =>
    rw [follow, hscan] at hleft
    cases hleft
  | succ left =>
    rw [follow, hscan] at hleft
    exact ⟨left, hleft⟩

end

/-- What the system has left to do, from a place inside `source`: first what the check accepts, then
names. -/
inductive Safe (links : List (RelPath × Bytes)) : Place × List Component → Prop
  | mk {pos : RelPath} {todo : List Component} {names : RelPath} :
      pos.head? = some sourceName → Free links pos → Checked links pos todo →
      Safe links (.staged pos, todo ++ names.map .normal)

variable (hdisk : ∀ path target, disk path = some (.link target) ↔ linkAt links path = some target)
  (hlinks : ∀ link ∈ links, validateLink link.1 links = .ok ())

include hdisk in
theorem linkAt_eq_none (h : ∀ target, disk path ≠ some (.link target)) :
    linkAt links path = none := by
  cases hlink : linkAt links path with
  | none => rfl
  | some target => exact absurd ((hdisk path target).mpr hlink) (h target)

include hlinks in
theorem checked_target {name : Name} (hsource : pos.head? = some sourceName)
    (hfree : Free links pos) (hlink : linkAt links (pos ++ [name]) = some target) :
    Checked links pos (components target) := by
  have hchecked : Checked links [] ((pos ++ [name]).map .normal) :=
    ⟨40, hlinks _ (linkAt_eq_some hlink)⟩
  have hscan : scan links [] ((pos ++ [name]).map .normal) = .link pos target [] := by
    rw [List.map_append, scan_free hfree hsource]
    simp only [List.map_cons, List.map_nil, scan, hlink]
    rw [if_pos (head?_append_of_source hsource _)]
  simpa using hchecked.link hscan

include hdisk in
theorem Safe.name {name : Name} (todo : List Component) {names : RelPath}
    {next : Place × List Component} (hsource : pos.head? = some sourceName) (hfree : Free links pos)
    (hlink : ∀ target, linkAt links (pos ++ [name]) = some target →
      Checked links pos (components target ++ todo))
    (hplain : linkAt links (pos ++ [name]) = none → Checked links (pos ++ [name]) todo)
    (hstep : osStep disk (.staged pos, .normal name :: (todo ++ names.map .normal)) = some next) :
    Safe links next := by
  have hentered : (∀ target, disk (pos ++ [name]) ≠ some (.link target)) →
      Safe links (.staged (pos ++ [name]), todo ++ names.map .normal) := by
    intro hnot
    have hnone := linkAt_eq_none hdisk hnot
    exact .mk (head?_append_of_source hsource _) (hfree.append hnone) (hplain hnone)
  simp only [osStep, Option.ite_none_right_eq_some] at hstep
  obtain ⟨_, hstep⟩ := hstep
  cases hfound : disk (pos ++ [name]) with
  | none =>
    rw [hfound] at hstep
    obtain rfl := Option.some.inj hstep
    exact hentered (by simp [hfound])
  | some staged =>
    rw [hfound] at hstep
    cases staged with
    | link target =>
      obtain rfl := Option.some.inj hstep
      rw [← List.append_assoc]
      exact .mk hsource hfree (hlink target ((hdisk _ _).mp hfound))
    | dir mode =>
      obtain rfl := Option.some.inj hstep
      exact hentered (by simp [hfound])
    | file mode bytes =>
      obtain rfl := Option.some.inj hstep
      exact hentered (by simp [hfound])

include hdisk hlinks in
/-- The system goes where the check went. -/
theorem Safe.step {state next : Place × List Component} (h : Safe links state)
    (hstep : osStep disk state = some next) : Safe links next := by
  cases h with
  | @mk pos todo names hsource hfree hchecked =>
    cases todo with
    | nil =>
      cases names with
      | nil => cases hstep
      | cons name names =>
        refine Safe.name hdisk [] hsource hfree (fun target hlink => ?_) (fun _ => .nil) hstep
        simpa using checked_target hlinks hsource hfree hlink
    | cons part todo =>
      have hescape := hchecked.ne_escape
      cases part with
      | curDir =>
        simp only [List.cons_append, osStep, Option.ite_none_right_eq_some] at hstep
        obtain rfl := Option.some.inj hstep.2
        exact .mk hsource hfree (hchecked.congr rfl)
      | rootDir => exact absurd rfl hescape
      | parentDir =>
        by_cases hinside : pos ≠ [sourceName] ∧ pos ≠ []
        · simp only [List.cons_append, osStep, Option.ite_none_right_eq_some,
            if_neg hinside.2] at hstep
          obtain rfl := Option.some.inj hstep.2
          refine .mk ?_ hfree.dropLast (hchecked.congr (by rw [scan, if_pos hinside]))
          match pos, hsource, hinside with
          | [first], hsource, hinside => exact absurd (by simpa using hsource) hinside.1
          | first :: second :: rest, hsource, _ => exact hsource
        · exact absurd (by rw [scan, if_neg hinside]) hescape
      | normal name =>
        have hhead := head?_append_of_source hsource [name]
        refine Safe.name hdisk todo hsource hfree (fun target hlink => ?_) (fun hnone => ?_) hstep
        · refine hchecked.link ?_
          rw [scan, if_pos hhead, hlink]
        · refine hchecked.congr ?_
          rw [scan, if_pos hhead, hnone]

include hdisk in
theorem Safe.start (hroot : linkAt links [sourceName] = none) {names : RelPath}
    {next : Place × List Component}
    (hstep : osStep disk (.staged [], .normal sourceName :: names.map .normal) = some next) :
    Safe links next := by
  have hfree : Free links [sourceName] := by
    intro part hne hpart
    rcases List.prefix_concat_iff.mp (show part <+: [] ++ [sourceName] from hpart) with rfl | hpart
    · exact hroot
    · exact absurd (List.prefix_nil.mp hpart) hne
  have hentered : Safe links (.staged [sourceName], [] ++ names.map .normal) := .mk rfl hfree .nil
  simp only [osStep, Option.ite_none_right_eq_some, List.nil_append] at hstep
  obtain ⟨_, hstep⟩ := hstep
  cases hfound : disk [sourceName] with
  | none =>
    rw [hfound] at hstep
    obtain rfl := Option.some.inj hstep
    exact hentered
  | some staged =>
    rw [hfound] at hstep
    cases staged with
    | link target => cases hroot.symm.trans ((hdisk _ _).mp hfound)
    | dir mode =>
      obtain rfl := Option.some.inj hstep
      exact hentered
    | file mode bytes =>
      obtain rfl := Option.some.inj hstep
      exact hentered

include hdisk hlinks in
/-- With no link for `source` itself, every path under it stays inside. -/
theorem contained_of_checked (hroot : linkAt links [sourceName] = none) : Contained disk := by
  intro names place hleads
  rcases Relation.ReflTransGen.cases_head hleads with hnil | ⟨first, hfirst, hrest⟩
  · cases hnil
  · have hsafe : Safe links (place, []) := by
      refine Relation.ReflTransGen.head_induction_on (motive := fun state _ => Safe links state →
        Safe links (place, [])) hrest id
          (fun hstep _ ih hsafe => ih (hsafe.step hdisk hlinks hstep))
        (Safe.start hdisk hroot hfirst)
    generalize hend : (place, ([] : List Component)) = final at hsafe
    obtain ⟨hsource, _, _⟩ := hsafe
    exact ⟨_, (Prod.mk.inj hend).1, hsource⟩

theorem scan_source (hroot : linkAt links [sourceName] = some target) (rest : List Component) :
    scan links [] (.normal sourceName :: rest) = .link [] target rest := by
  simp [scan, hroot]

/-- A link for `source` that is accepted has nothing but dots: a name could only be `source` again.
-/
theorem dots_of_checked (hroot : linkAt links [sourceName] = some target) (left : Nat)
    {rest : List Component} (h : follow links left [] (components target ++ rest) = .ok ()) :
    ∀ part ∈ components target, part = .curDir := by
  induction left using Nat.strongRecOn generalizing rest with
  | ind left ih =>
    have hparts : ∀ parts : List Component, (∀ part ∈ parts, part ∈ components target) →
        follow links left [] (parts ++ rest) = .ok () → ∀ part ∈ parts, part = .curDir := by
      intro parts
      induction parts with
      | nil => simp
      | cons part parts ihParts =>
        intro hsub hfollow
        have hescape := Checked.ne_escape ⟨left, hfollow⟩
        cases part with
        | curDir =>
          have hsame : scan links [] (parts ++ rest) = scan links [] (.curDir :: parts ++ rest) :=
            rfl
          refine List.forall_mem_cons.mpr
            ⟨rfl, ihParts (fun part hpart => hsub part (by simp [hpart])) ?_⟩
          rw [follow_congr hsame, hfollow]
        | rootDir => exact absurd rfl hescape
        | parentDir => exact absurd (by simp [scan]) hescape
        | normal name =>
          by_cases hname : name = sourceName
          · subst hname
            have hcomponents : ∀ part ∈ components target, part = .curDir := by
              cases left with
              | zero =>
                rw [List.cons_append, follow, scan_source hroot] at hfollow
                cases hfollow
              | succ left =>
                rw [List.cons_append, follow, scan_source hroot] at hfollow
                exact ih left (Nat.lt_succ_self left) hfollow
            cases hcomponents _ (hsub _ List.mem_cons_self)
          · exact absurd (by simp [scan, hname]) hescape
    exact hparts _ (fun _ hpart => hpart) h

include hdisk in
theorem leads_to_root (hroot : linkAt links [sourceName] = some target)
    (hdots : ∀ part ∈ components target, part = .curDir) :
    LeadsTo disk [.normal sourceName] (.staged []) := by
  have hstep : osStep disk (.staged [], [.normal sourceName]) =
      some (.staged [], components target) := by
    simp [osStep, Upload.isDir, (hdisk _ _).mpr hroot]
  refine .head hstep ?_
  generalize components target = parts at hdots
  induction parts with
  | nil => exact .refl
  | cons part parts ih =>
    obtain ⟨rfl, hrest⟩ := List.forall_mem_cons.mp hdots
    exact .head rfl (ih hrest)

include hdisk hlinks in
theorem contained_iff : Contained disk ↔ linkAt links [sourceName] = none := by
  refine ⟨fun hcontained => ?_, contained_of_checked hdisk hlinks⟩
  cases hroot : linkAt links [sourceName] with
  | none => rfl
  | some target =>
    have hchecked : Checked links [] ([sourceName].map .normal) :=
      ⟨40, hlinks _ (linkAt_eq_some hroot)⟩
    obtain ⟨left, hfollow⟩ := hchecked.link (scan_source hroot [])
    have hdots := dots_of_checked hroot left hfollow
    obtain ⟨path, hpath, hsource⟩ := hcontained [] _ (leads_to_root hdisk hroot hdots)
    obtain rfl := Place.staged.inj hpath
    cases hsource

end Walks

/-! ## Every sequence of frames -/

namespace Upload

variable {frames : List Input}

def Accepted (frames : List Input) : Prop :=
  ∀ before frame after, frames = before ++ frame :: after → ((run before).accept frame).2 = .ok ()

def Rejected (frames : List Input) : Prop :=
  ∃ before frame after, frames = before ++ frame :: after ∧ ∃ error,
    ((run before).accept frame).2 = .error error

def IsSourceLink : Input → Prop
  | .entry path (.link _) _ => components path = [.normal sourceName]
  | _ => False

instance : DecidablePred IsSourceLink
  | .entry path (.link _) _ => inferInstanceAs (Decidable (components path = _))
  | .entry _ .directory _ | .entry _ (.file _) _ | .data _ | .finish | .control =>
    inferInstanceAs (Decidable False)

@[simp] theorem run_append_singleton (frames : List Input) (frame : Input) :
    run (frames ++ [frame]) = ((run frames).accept frame).1 := by
  simp [run]

theorem accepted_iff {frames : List Input} : Accepted frames ↔
    ∀ n : Fin frames.length, ((run (frames.take n)).accept (frames.get n)).2 = .ok () := by
  constructor
  · intro h n
    refine h _ _ (frames.drop (n + 1)) ?_
    simp
  · rintro h before frame after rfl
    simpa using h ⟨before.length, by simp⟩

instance (frames : List Input) : Decidable (Accepted frames) := decidable_of_iff _ accepted_iff.symm

variable {frame : Input}

theorem accepted_append_singleton (frames : List Input) :
    Accepted (frames ++ [frame]) ↔
    Accepted frames ∧ ((run frames).accept frame).2 = .ok () := by
  constructor
  · intro h
    exact ⟨fun before earlier after hsplit =>
      h before earlier (after ++ [frame]) (by simp [hsplit]), h frames frame [] rfl⟩
  · rintro ⟨hframes, hframe⟩ before earlier after hsplit
    rcases List.eq_nil_or_concat' after with rfl | ⟨rest, last, rfl⟩
    · obtain ⟨rfl, hlast⟩ := List.append_inj' hsplit rfl
      obtain rfl := (List.cons.inj hlast).1
      exact hframe
    · have hsplit' : frames ++ [frame] = (before ++ earlier :: rest) ++
          [last] := by simpa using hsplit
      exact hframes before earlier rest (List.append_inj' hsplit' rfl).1

theorem accept_eq_ok {upload : Upload} (h : (upload.accept frame).2 = .ok ()) :
    upload.state = .receiving ∧ upload.acceptNext frame = .ok (upload.accept frame).1 := by
  unfold accept at h ⊢
  split
  · next hstate =>
    rw [if_pos hstate] at h
    cases h
  · next hstate =>
    rw [if_neg hstate] at h
    refine ⟨not_not.mp hstate, ?_⟩
    split
    · next next hnext => exact hnext
    · next error hnext =>
      rw [hnext] at h
      cases h

/-- What is known of an upload all of whose frames were accepted. -/
structure Received (frames : List Input) (upload : Upload) : Prop where
  running : upload.state = .receiving → ∀ path target, upload.disk path ≠ some (.link target)
  closed : upload.state = .finished →
    (∀ path target, upload.disk path = some (.link target) ↔
      linkAt upload.links path = some target) ∧
    ∀ link ∈ upload.links, validateLink link.1 upload.links = .ok ()
  under : ∀ link ∈ upload.links, link.1.head? = some sourceName
  root : linkAt upload.links [sourceName] = none ↔ ∀ frame ∈ frames, ¬ IsSourceLink frame

theorem linkAt_eq_none_iff {links : List (RelPath × Bytes)} :
    linkAt links path = none ↔ ∀ link ∈ links, link.1 ≠ path := by
  simp [linkAt]

theorem not_link_update {disk : RelPath → Option Staged} {staged : Staged}
    (h : ∀ path target, disk path ≠ some (.link target))
    (hstaged : ∀ target, staged ≠ .link target) :
    ∀ path' target, Function.update disk path (some staged) path' ≠ some (.link target) := by
  intro path' target
  by_cases hsame : path' = path
  · rw [hsame, Function.update_self]
    exact fun heq => hstaged target (Option.some.inj heq)
  · rw [Function.update_of_ne hsame]
    exact h path' target

theorem Received.keep {upload next : Upload} (h : Received frames upload)
    (hstate : upload.state = .receiving) (hnext : next.state = upload.state)
    (hlinks : next.links = upload.links) (hframe : ¬ IsSourceLink frame)
    (hdisk : ∀ path target, next.disk path ≠ some (.link target)) :
    Received (frames ++ [frame]) next where
  running := fun _ => hdisk
  closed := fun hfinished => by cases hfinished.symm.trans (hnext.trans hstate)
  under := hlinks ▸ h.under
  root := by
    rw [hlinks, h.root]
    simp [hframe, or_imp, forall_and]

theorem Received.step {upload next : Upload} (h : Received frames upload)
    (hstate : upload.state = .receiving) (hnext : upload.acceptNext frame = .ok next) :
    Received (frames ++ [frame]) next := by
  have hdisk := h.running hstate
  cases frame with
  | data bytes =>
    obtain ⟨_, _, path, remaining, _, _, rfl⟩ := acceptData_eq_ok.mp hnext
    refine h.keep hstate rfl rfl id ?_
    cases hfile : upload.disk path with
    | none => simpa [hfile] using hdisk
    | some staged =>
      cases staged with
      | file mode written =>
        exact not_link_update hdisk (by simp)
      | dir | link => simpa [hfile] using hdisk
  | control => exact absurd hnext acceptNext_control
  | finish =>
    obtain ⟨hvalid, -, rfl⟩ := acceptFinish_eq_ok.mp (acceptNext_finish.mp hnext).2
    refine ⟨fun hrunning => (by cases hrunning), fun _ => ⟨fun path target => ?_, hvalid⟩, h.under,
      ?_⟩
    · simp only [linked]
      cases hlink : linkAt upload.links path with
      | none => simp [hdisk]
      | some other => simp
    · rw [h.root]
      simp [IsSourceLink, or_imp, forall_and]
  | entry path kind mode =>
    obtain ⟨_, relative, hrelative, _, _, _, _, _, hkind⟩ :=
      acceptEntry_eq_ok.mp (acceptNext_entry.mp hnext).2
    cases kind with
    | directory =>
      obtain ⟨_, _, rfl⟩ := acceptKind_directory.mp hkind
      exact h.keep hstate rfl rfl id (not_link_update hdisk (by simp))
    | file size =>
      obtain ⟨_, _, _, rfl⟩ := acceptKind_file.mp hkind
      exact h.keep hstate rfl rfl id (not_link_update hdisk (by simp))
    | link target =>
      obtain ⟨hsource, _, _, _, rfl⟩ := acceptKind_link.mp hkind
      refine ⟨fun _ => hdisk, fun hfinished => (by cases hfinished.symm.trans hstate), ?_, ?_⟩
      · intro link hlink
        rcases List.mem_orderedInsert Before |>.mp hlink with rfl | hlink
        · simpa using hsource
        · exact h.under link hlink
      have hroot : IsSourceLink (.entry path (.link target) mode) ↔ relative = [sourceName] := by
        rw [IsSourceLink, (receivedPath_eq_ok.mp hrelative).2.2.2.2]
        exact (List.map_injective_iff.mpr fun _ _ => Component.normal.inj).eq_iff
          (b := [sourceName])
      have hold := linkAt_eq_none_iff.symm.trans h.root
      simp only [linkAt_eq_none_iff, List.mem_orderedInsert, List.forall_mem_append, or_imp,
        forall_and, forall_eq, List.forall_mem_singleton, hroot, hold]
      exact and_comm

theorem received_of_accepted (h : Accepted frames) : Received frames (run frames) := by
  induction frames using List.reverseRecOn with
  | nil =>
    refine ⟨fun _ _ _ hlink => ?_, fun hfinished => (by cases hfinished), ?_, ?_⟩
    · cases hlink
    · simp [run, new]
    · simp [run, new, linkAt]
  | append_singleton frames frame ih =>
    obtain ⟨hframes, hframe⟩ := (accepted_append_singleton frames).mp h
    obtain ⟨hstate, hnext⟩ := accept_eq_ok hframe
    rw [run_append_singleton]
    exact (ih hframes).step hstate hnext

theorem accept_of_closed {upload : Upload} (h : upload.state ≠ .receiving) (frame : Input) :
    upload.accept frame = (upload, .error ⟨"Build upload is already closed"⟩) := by
  rw [accept, if_pos h]

theorem foldl_of_closed {upload : Upload} (h : upload.state ≠ .receiving) (frames : List Input) :
    frames.foldl (fun upload frame => (upload.accept frame).1) upload = upload := by
  induction frames with
  | nil => rfl
  | cons frame frames ih => rw [List.foldl_cons, accept_of_closed h, ih]

theorem run_append (before after : List Input) : run (before ++ after) =
    after.foldl (fun upload frame => (upload.accept frame).1) (run before) := by
  simp [run]

theorem state_of_rejected {upload : Upload} {error : InputError}
    (h : (upload.accept frame).2 = .error error) (hstate : upload.state = .receiving) :
    (upload.accept frame).1.state = .failed := by
  unfold accept at h ⊢
  rw [if_neg (not_not.mpr hstate)] at h ⊢
  split
  · next next hnext =>
    rw [hnext] at h
    cases h
  · rfl

/-- A rejected frame keeps an upload from being completed exactly if nothing follows its Finish. -/
theorem not_completed_iff : (Rejected frames → ∀ completed, (run frames).complete ≠ .ok completed) ↔
    ∀ before after, frames = before ++ after → (run before).state = .finished → after = [] := by
  have hcomplete : ∀ upload : Upload,
      (∀ completed, upload.complete ≠ .ok completed) ↔ upload.state ≠ .finished := by
    intro upload
    by_cases hstate : upload.state = .finished <;> simp [complete, hstate]
  rw [hcomplete]
  constructor
  · rintro h before after rfl hstate
    have hclosed : (run before).state ≠ .receiving := by simp [hstate]
    cases after with
    | nil => rfl
    | cons frame after =>
      refine absurd ?_ (h ⟨before, frame, after, rfl, _, by rw [accept_of_closed hclosed]⟩)
      rw [run_append, foldl_of_closed hclosed, hstate]
  · rintro h ⟨before, frame, after, rfl, error, herror⟩ hfinished
    cases hstate : (run before).state with
    | finished => cases h before (frame :: after) rfl hstate
    | failed =>
      rw [run_append, foldl_of_closed (by simp [hstate]), hstate] at hfinished
      cases hfinished
    | receiving =>
      have hfailed := state_of_rejected herror hstate
      rw [run_append, List.foldl_cons, foldl_of_closed (by simp [hfailed]), hfailed] at hfinished
      cases hfinished

end Upload

/-- For every sequence of frames. If all are accepted up to Finish, every path under `source` leads
to a place inside `source`, exactly if no frame made `source` itself a link. And a sequence with a
rejected frame cannot be completed, exactly if nothing follows an accepted Finish. -/
theorem upload_contained_iff (frames : List Input) :
    (Upload.Accepted frames → (Upload.run frames).state = .finished →
      (Contained (Upload.run frames).disk ↔ ∀ frame ∈ frames, ¬ Upload.IsSourceLink frame)) ∧
    ((Upload.Rejected frames → ∀ completed, (Upload.run frames).complete ≠ .ok completed) ↔
      ∀ before after, frames = before ++ after → (Upload.run before).state = .finished →
        after = []) := by
  refine ⟨fun haccepted hfinished => ?_, Upload.not_completed_iff⟩
  have hreceived := Upload.received_of_accepted haccepted
  obtain ⟨hdisk, hlinks⟩ := hreceived.closed hfinished
  rw [contained_iff hdisk hlinks, hreceived.root]

namespace Sample

def sourceText : Bytes := [115, 111, 117, 114, 99, 101]

/-- A directory `source` with a link `a` to itself. -/
def selfLink : List Input :=
  [.entry sourceText .directory 0o755, .entry (sourceText ++ [47, 97]) (.link [46]) 0o777, .finish]

/-- `source` is a link to the staging root, which holds `private`. -/
def rootLink : List Input :=
  [.entry sourceText (.link [46]) 0o777, .entry privateName.bytes .directory 0o700, .finish]

theorem self_link_contained : Contained (Upload.run selfLink).disk := by
  have haccepted : Upload.Accepted selfLink := by decide +kernel
  exact ((upload_contained_iff selfLink).1 haccepted (by decide +kernel)).mpr (by decide +kernel)

/-- The link is accepted, and `source/private` is the private material. A frame after Finish is
rejected, and the upload is completed. -/
theorem root_link_reaches_private :
    Upload.Accepted rootLink ∧ (Upload.run rootLink).state = .finished ∧
    LeadsTo (Upload.run rootLink).disk [.normal sourceName, .normal privateName]
      (.staged [privateName]) ∧
    Upload.Rejected (rootLink ++ [.finish]) ∧
    ∃ completed, (Upload.run (rootLink ++ [.finish])).complete = .ok completed := by
  have haccepted : Upload.Accepted rootLink := by decide +kernel
  refine ⟨haccepted, by decide +kernel, ?_, ⟨rootLink, .finish, [], rfl, _, rfl⟩, _, rfl⟩
  refine .head (b := (.staged [], [.curDir, .normal privateName])) (by decide +kernel) ?_
  refine .head (b := (.staged [], [.normal privateName])) (by decide +kernel) ?_
  exact .single (by decide +kernel)

end Sample

end Ployz.Build
