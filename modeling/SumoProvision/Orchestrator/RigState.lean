import SumoProvision.Orchestrator.Dispatch
import SumoProvision.SoftwareTower.Partition
import SumoProvision.Wire.Serde

/-!
# The state of a rig

`read_rig_state` reads a rig component by component: the files of its installed manifest become
parts, and a file whose digest does not parse is dropped, so that the part "reads as drift and
forces a push". The tower, however, looks for the contents of a component among all its reported
digests, under whatever name (`entityAgreed`). `malformed_digest_pushed_iff` says when the push
follows nevertheless.

The SOVD client is a parameter.
-/

namespace Orchestrator

open Wire SoftwareTower
open Json (record decodeString decodeList)

/-! ## Definitions -/

/-- A file of an installed manifest. -/
structure InstalledFile where
  path : String
  sha256 : String
  deriving DecidableEq

/-- The identity in an installed manifest. -/
structure Identity where
  name : String := ""
  version : String := ""
  deriving DecidableEq

/-- The installed manifest of a component, as far as it is read. -/
structure InstalledManifest where
  identity : Identity
  files : List InstalledFile
  deriving DecidableEq

def InstalledFile.fromJson (json : Json) : Option InstalledFile := do
  let r ← json.record ["path", "sha256"]
  let path ← r.required "path" decodeString
  let sha256 ← r.required "sha256" decodeString
  return ⟨path, sha256⟩

def Identity.fromJson (json : Json) : Option Identity := do
  let r ← json.record ["name", "version"]
  let name ← r.orDefault "name" decodeString ""
  let version ← r.orDefault "version" decodeString ""
  return { name, version }

def InstalledManifest.fromJson (json : Json) : Option InstalledManifest := do
  let r ← json.record ["identity", "files"]
  let identity ← r.orDefault "identity" Identity.fromJson {}
  let files ← r.orDefault "files" (decodeList InstalledFile.fromJson) []
  return { identity, files }

/-- A component that a rig advertises. -/
structure SovdComponent where
  id : String
  componentType : Option String

/-- The connected SOVD client: a data resource of a component, and `x-runtime.admin_state` of its
status. -/
structure SovdClient where
  readData : String → String → Except SovdError Json
  adminState : String → Except SovdError (Option Json)

/-- Project the files of an installed manifest into parts; a file whose digest does not parse is
dropped. -/
def installedFilesToParts (files : List InstalledFile) : List Part :=
  files.filterMap fun f =>
    match ContentHash.fromStr f.sha256 with
    | .ok content => some ⟨"file", f.path, content⟩
    | .error _ => none

/-- A resource that the component or the rig does not have is read as none. -/
def readOptional (client : SovdClient) (component resource : String) :
    Except Error (Option Json) :=
  match client.readData component resource with
  | .ok value => .ok (some value)
  | .error (.server 404) | .error (.server 501) => .ok none
  | .error e => .error (.sovd e)

/-- The update mode of a component; a value that does not parse is none. -/
def readUpdateMode (client : SovdClient) (component : String) :
    Except Error (Option UpdateMode) := do
  let value ← readOptional client component "x-ota-update-mode"
  return value.bind UpdateMode.fromJson

/-- The installed manifest of a component; a value that does not parse is an error. -/
def readInstalled (client : SovdClient) (component : String) :
    Except Error (Option InstalledManifest) := do
  match ← readOptional client component "x-ota-installed-manifest" with
  | none => return none
  | some value =>
    match InstalledManifest.fromJson value with
    | some manifest => return some manifest
    | none => .error (.manifest component)

def parseAdminDisabled : Option Json → Except Error (Option Bool)
  | none => .ok none
  | some (.string "enabled") => .ok (some false)
  | some (.string "disabled") => .ok (some true)
  | some (.string other) => .error (.nodeState s!"unknown x-runtime.admin_state '{other}'")
  | some _ => .error (.nodeState "x-runtime.admin_state must be a string")

def readAdminDisabled (client : SovdClient) (component : String) :
    Except Error (Option Bool) := do
  let state ← (client.adminState component).mapError .sovd
  parseAdminDisabled state

/-- The version label of a manifest. -/
def InstalledManifest.label (m : InstalledManifest) : String :=
  Text.trim s!"{m.identity.name} {m.identity.version}"

/-- The entity of one component. -/
def readRigEntity (client : SovdClient) (c : SovdComponent) : Except Error (String × Entity) := do
  let installed ← readInstalled client c.id
  let updateMode ← readUpdateMode client c.id
  let adminDisabled ← readAdminDisabled client c.id
  -- A component without a signed manifest has neither a version nor parts.
  return (c.id, {
    kind := c.componentType.getD "", version := installed.map (·.label), updateMode,
    parts := installed.elim [] fun m => installedFilesToParts m.files, adminDisabled })

/-- Read the observed state of a rig, once the client is connected and has listed the
components. -/
def readRigState (connectSovd : Except Error (SovdClient × List SovdComponent)) :
    Except Error Tree := do
  let (client, components) ← connectSovd
  let entities ← components.mapM (readRigEntity client)
  return .ofList entities

/-! ## What becomes of the files -/

/-- The contents of the parts are the digests that parse, under whatever path. -/
theorem exists_installedFilesToParts_iff {files : List InstalledFile} {content : ContentHash} :
    (∃ p ∈ installedFilesToParts files, p.content = content) ↔
      ∃ f ∈ files, ContentHash.fromStr f.sha256 = .ok content := by
  simp only [installedFilesToParts, List.mem_filterMap]
  constructor
  · rintro ⟨p, ⟨f, hf, hp⟩, rfl⟩
    split at hp
    next content hcontent =>
      obtain rfl := Option.some.inj hp
      exact ⟨f, hf, hcontent⟩
    next => cases hp
  · rintro ⟨f, hf, hcontent⟩
    exact ⟨_, ⟨f, hf, by rw [hcontent]⟩, rfl⟩

/-! ## Malformed digests -/

/-- The L1 that the tower assembles has the component, and the component is not left out. -/
def InL1 (desired reported : Tree) (path : String) (des : Entity) : Prop :=
  (path, des) ∈ (partitionL1Components desired (some reported)).included ∧
    path ∉ (partitionL1Components desired (some reported)).skipped

instance (desired reported : Tree) (path : String) (des : Entity) :
    Decidable (InL1 desired reported path des) :=
  inferInstanceAs (Decidable (_ ∧ _))

/-- An enabled component with parts is pushed iff the device reports it disabled or lacks, among
all digests that parse, the content of one of its parts. -/
theorem inL1_iff_content_missing {desired reported : Tree} {path : String} {des obs : Entity}
    {files : List InstalledFile} (hdes : desired.get? path = some des)
    (henabled : des.disabled = false) (hne : des.parts ≠ []) (hobs : reported.get? path = some obs)
    (hparts : obs.parts = installedFilesToParts files) :
    InL1 desired reported path des ↔ obs.adminDisabled = some true ∨
      ∃ p ∈ des.parts, ∀ f ∈ files, ContentHash.fromStr f.sha256 ≠ .ok p.content := by
  have hagreed : entityAgreed reported path des = false ↔
      ∃ p ∈ des.parts, ∀ f ∈ files, ContentHash.fromStr f.sha256 ≠ .ok p.content := by
    rw [← Bool.not_eq_true, entityAgreed_iff hobs, hparts]
    simp only [exists_installedFilesToParts_iff, not_forall, not_exists, not_and, exists_prop,
      ne_eq]
  have hincluded : (path, des) ∈ (partitionL1Components desired (some reported)).included ↔
      obs.adminDisabled = some true ∨
        ∃ p ∈ des.parts, ∀ f ∈ files, ContentHash.fromStr f.sha256 ≠ .ok p.content := by
    rw [mem_included, l1Class_eq_included_iff, Tree.adminDisabled_of_get? hobs, hagreed]
    simp [hdes, henabled, hne]
  rw [InL1, hincluded]
  refine and_iff_left_of_imp fun h hskipped => ?_
  -- A component has only one class.
  obtain ⟨des', hdes', hclass⟩ := mem_skipped.mp hskipped
  have hclass' := (mem_included.mp (hincluded.mpr h)).2
  obtain rfl : des = des' := Option.some.inj (hdes.symm.trans hdes')
  rw [hclass'] at hclass
  cases hclass

/-- A component with a part whose digest the device reports malformed is pushed iff it is reported
disabled or one of its contents is not reported at all. So it is pushed if no other file has the
content of the corrupted part. -/
theorem malformed_digest_pushed_iff {desired reported : Tree} {path : String} {des obs : Entity}
    {x : Part} {files : List InstalledFile} {bad : InstalledFile}
    (hdes : desired.get? path = some des) (henabled : des.disabled = false) (hx : x ∈ des.parts)
    (hobs : reported.get? path = some obs) (hparts : obs.parts = installedFilesToParts files)
    (hbad : bad ∈ files ∧ bad.path = x.id ∧
      ∀ content, ContentHash.fromStr bad.sha256 ≠ .ok content) :
    (InL1 desired reported path des ↔ obs.adminDisabled = some true ∨
      ∃ p ∈ des.parts, ∀ f ∈ files, ContentHash.fromStr f.sha256 ≠ .ok p.content) ∧
      ((∀ f ∈ files, f ≠ bad → ContentHash.fromStr f.sha256 ≠ .ok x.content) →
        InL1 desired reported path des) := by
  have hiff := inL1_iff_content_missing hdes henabled (List.ne_nil_of_mem hx) hobs hparts
  refine ⟨hiff, fun hother => hiff.mpr (.inr ⟨x, hx, fun f hf => ?_⟩)⟩
  obtain ⟨-, -, hmalformed⟩ := hbad
  by_cases hf' : f = bad
  · rw [hf']
    exact hmalformed x.content
  · exact hother f hf hf'

/-! ## Two rigs -/

/-- The entry of a file in an installed manifest. -/
def InstalledFile.toJson (f : InstalledFile) : Json :=
  .ofFields [("path", .string f.path), ("sha256", .string f.sha256)]

theorem InstalledFile.fromJson_toJson (f : InstalledFile) : fromJson f.toJson = some f := by
  simp [fromJson, toJson, Json.record_ofFields, Json.Record.required, Json.lookup_cons]

/-- A rig that serves an installed manifest with these files, and no other resource. -/
def rigWithFiles (files : List InstalledFile) : SovdClient where
  readData _ resource :=
    if resource = "x-ota-installed-manifest" then
      .ok (.ofFields [("files", .array (files.map InstalledFile.toJson))])
    else .error (.server 404)
  adminState _ := .ok none

theorem readInstalled_rigWithFiles (files : List InstalledFile) (component : String) :
    readInstalled (rigWithFiles files) component = .ok (some ⟨{}, files⟩) := by
  have hfiles := Json.decodeList_array InstalledFile.fromJson_toJson files
  simp [readInstalled, readOptional, rigWithFiles, InstalledManifest.fromJson,
    Json.record_ofFields, Json.Record.orDefault, Json.lookup_cons, hfiles, pure, Except.pure]

/-- What is read of such a rig. -/
theorem readRigState_rigWithFiles (files : List InstalledFile) :
    ∃ observed, readRigState (.ok (rigWithFiles files, [⟨"vm1", some "vm"⟩])) = .ok observed ∧
      ∃ obs, observed.get? "vm1" = some obs ∧ obs.adminDisabled = none ∧
        obs.parts = installedFilesToParts files := by
  let obs : Entity :=
    { kind := "vm", version := some (InstalledManifest.label ⟨{}, files⟩),
      parts := installedFilesToParts files }
  refine ⟨.ofList [("vm1", obs)], ?_, obs, rfl, rfl, rfl⟩
  have hread : readRigEntity (rigWithFiles files) ⟨"vm1", some "vm"⟩ = .ok ("vm1", obs) := by
    rw [readRigEntity, readInstalled_rigWithFiles]
    rfl
  simp [readRigState, hread, pure, Except.pure]

/-- A malformed digest of the only file that has the content of the release. -/
theorem malformed_digest_pushed_kernel :
    let content : ContentHash := ⟨Vector.replicate 32 7⟩
    let files : List InstalledFile := [⟨"kernel", "not-a-sha"⟩]
    let des : Entity := { kind := "vm", parts := [⟨"file", "kernel", content⟩] }
    ∃ observed, readRigState (.ok (rigWithFiles files, [⟨"vm1", some "vm"⟩])) = .ok observed ∧
      InL1 (.ofList [("vm1", des)]) observed "vm1" des := by
  intro content files des
  have herror : ContentHash.fromStr "not-a-sha" = .error .notHex := by decide
  obtain ⟨observed, hread, obs, hobs, -, hparts⟩ := readRigState_rigWithFiles files
  have hx : ⟨"file", "kernel", content⟩ ∈ des.parts := List.mem_singleton_self _
  have hfile : ⟨"kernel", "not-a-sha"⟩ ∈ files := List.mem_singleton_self _
  refine ⟨observed, hread, (malformed_digest_pushed_iff rfl rfl hx hobs hparts
    ⟨hfile, rfl, ?_⟩).2 ?_⟩
  · simp [herror]
  · simp [files]

/-- The release has a kernel, which the rig reports with a malformed digest. Another file of the rig
has the content of that kernel, and the component is skipped. -/
theorem malformed_digest_not_pushed :
    let content : ContentHash := ⟨Vector.replicate 32 7⟩
    let files : List InstalledFile :=
      [⟨"kernel", "not-a-sha"⟩, ⟨"kernel.bak", content.toPrefixed⟩]
    let des : Entity := { kind := "vm", parts := [⟨"file", "kernel", content⟩] }
    (∀ hash, ContentHash.fromStr "not-a-sha" ≠ .ok hash) ∧
      ∃ observed, readRigState (.ok (rigWithFiles files, [⟨"vm1", some "vm"⟩])) = .ok observed ∧
        ¬ InL1 (.ofList [("vm1", des)]) observed "vm1" des := by
  intro content files des
  have herror : ContentHash.fromStr "not-a-sha" = .error .notHex := by decide
  obtain ⟨observed, hread, obs, hobs, hadmin, hparts⟩ := readRigState_rigWithFiles files
  refine ⟨by simp [herror], observed, hread, fun hpushed => ?_⟩
  rw [inL1_iff_content_missing rfl rfl (by simp [des]) hobs hparts] at hpushed
  simp [hadmin, des, files, ContentHash.fromStr_toPrefixed] at hpushed

end Orchestrator
