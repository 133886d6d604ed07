import Mathlib.Data.List.DropRight
import SumoProvision.Cli.CampaignGate
import SumoProvision.Orchestrator.Preview

/-!
# Running a campaign

`rig campaign` previews the target and asks the gate whether there is anything to do. Only with
`--execute`, and only on a node without an unresolved transaction, it starts the push, which reads
the rig and resolves the target anew.

`rigCampaign_follows_preview` joins the two halves, as long as the channel names the release that it
named at the preview and the rig reports the same: where the command stops at the preview because
the vehicle is up to date or everything is deferred, the push would have had nothing to do either,
and what the engine is started with are components that the preview listed.
-/

open Wire
open Json (decodeString decodeList decodeOption)

namespace Orchestrator

/-! ## The state of the node -/

/-- A response of the rig: its status, and its body if that is JSON. -/
structure RigResponse where
  status : ℕ
  body : Option Json

/-- The node's update-transaction state. -/
structure NodeUpdateState where
  phase : String
  components : List String
  nodeBootId : Option String
  deriving DecidableEq

/-- A prior update transaction is unresolved. -/
def NodeUpdateState.isUnresolved (s : NodeUpdateState) : Bool :=
  s.phase == "RebootPending" || s.phase == "Trial"

def NodeUpdateState.fromJson (json : Json) : Option NodeUpdateState := do
  let r ← json.record ["phase", "components", "node_boot_id"]
  let phase ← r.required "phase" decodeString
  let components ← r.orDefault "components" (decodeList decodeString) []
  let nodeBootId ← r.orDefault "node_boot_id" (decodeOption decodeString) none
  return ⟨phase, components, nodeBootId⟩

/-- Read the node's update-transaction state. A device without the resource is asked at its legacy
name, and one with neither is idle. -/
def nodeUpdateState (get : String → Except String RigResponse) (describe : Option ℕ → String)
    (rigUrl : String) : Except Error NodeUpdateState := do
  let base := String.ofList (rigUrl.toList.rdropWhile (· = '/'))
  let resp ← (get s!"{base}/vehicle/v1/data/x-update-state").mapError .nodeState
  let resp ← if resp.status = 404 then
      (get s!"{base}/vehicle/v1/data/x-ota-update-state").mapError .nodeState
    else .ok resp
  if resp.status = 404 then return ⟨"Idle", [], none⟩
  else if 400 ≤ resp.status ∧ resp.status < 600 then
    .error (.nodeState (describe (some resp.status)))
  else
    match resp.body.bind NodeUpdateState.fromJson with
    | some state => return state
    | none => .error (.nodeState (describe none))

end Orchestrator

namespace Cli

open Orchestrator SoftwareTower IdentityTower

/-! ## The command -/

/-- The selector of the rig commands. -/
structure ChannelSel where
  channel : String
  device : Option String
  architecture : Option String

def ChannelSel.target (sel : ChannelSel) : Orchestrator.ChannelTarget :=
  ⟨sel.channel, sel.device, sel.architecture, none, none⟩

/-- How `rig campaign` ends without an error. -/
inductive CampaignOutcome (Report : Type) where
  | upToDate
  | planOnly
  | complete (results : List Report)
  deriving DecidableEq

/-- Where `rig campaign` fails. -/
inductive CampaignError where
  | preview (e : Error)
  | deferred (components : List String)
  | nodeState (e : Error)
  | unresolved (phase : String) (components : List String)
  | token (reason : String)
  | push (e : PlanError)
  deriving DecidableEq

/-- Whether what the campaign is for is deferred. -/
def campaignDeferred (plan : ApplyPlan) (only : Option String) : Bool :=
  plan.assessment.outcome == .deferred &&
    only.all fun id => plan.assessment.components.any (· == id)

section Command

variable {Report : Type} (only : Option String) (execute noCommit : Bool)
  (preview : Except Error ApplyPlan) (nodeState : Except Error NodeUpdateState)
  (token : Except String Unit)
  (push : Option (List String) → Except PlanError (List FlashJob × Bytes × Tree))
  (runCampaign : Bytes → List CampaignStep → Bool → Except Error (List Report))

/-- `rig campaign` behind the preview: on a node without an unresolved transaction, push. -/
def executeCampaign : Except CampaignError (List Report) := do
  let state ← nodeState.mapError .nodeState
  if state.isUnresolved then .error (.unresolved state.phase state.components)
  else
    token.mapError .token
    -- The command takes a single component, the orchestrator an allowlist.
    let only := only.map fun id => [id]
    (campaign (push only) only noCommit runCampaign).mapError .push

/-- `rig campaign`, on what the preview, the node, the token and the push yield. -/
def rigCampaign : Except CampaignError (CampaignOutcome Report) := do
  let plan ← preview.mapError .preview
  if campaignDeferred plan only then .error (.deferred plan.assessment.components)
  else if !campaignHasWork plan only then return .upToDate
  else if !execute then return .planOnly
  else
    let results ← executeCampaign only noCommit nodeState token push runCampaign
    return .complete results

end Command

/-! ## What the command does -/

section Run

variable {Report : Type} {only : Option String} {execute noCommit : Bool}
  {preview : Except Error ApplyPlan} {nodeState : Except Error NodeUpdateState}
  {token : Except String Unit}
  {push : Option (List String) → Except PlanError (List FlashJob × Bytes × Tree)}
  {runCampaign : Bytes → List CampaignStep → Bool → Except Error (List Report)}

/-- Behind the preview nothing is deferred. -/
theorem executeCampaign_ne_deferred (components : List String) :
    executeCampaign only noCommit nodeState token push runCampaign ≠
      .error (.deferred components) := by
  intro h
  simp only [executeCampaign, Except.bind_eq_error_iff, Except.mapError_eq_error_iff, reduceCtorEq,
    and_false, exists_false, false_or] at h
  obtain ⟨state, -, h⟩ := h
  split at h
  · cases h
  · simp [Except.bind_eq_error_iff, Except.mapError_eq_error_iff] at h

/-- The command stops at the preview only if the gate is closed or what it is for is deferred. -/
theorem preview_of_stopped
    (h : rigCampaign only execute noCommit preview nodeState token push runCampaign =
        .ok .upToDate ∨
      ∃ components, rigCampaign only execute noCommit preview nodeState token push runCampaign =
        .error (.deferred components)) :
    ∃ plan, preview = .ok plan ∧
      (campaignDeferred plan only = true ∨ campaignHasWork plan only = false) := by
  cases hpreview : preview with
  | error e => simp [rigCampaign, hpreview, Except.mapError] at h
  | ok plan =>
    refine ⟨plan, rfl, ?_⟩
    by_contra hnot
    obtain ⟨hdeferred, hclosed⟩ := not_or.mp hnot
    have hwork : campaignHasWork plan only = true := by simpa using hclosed
    simp only [rigCampaign, hpreview, Except.mapError, Except.ok_bind, hdeferred, if_false, hwork,
      Bool.not_true, Bool.false_eq_true] at h
    split at h
    · rcases h with h | ⟨components, h⟩ <;> cases h
    · simp only [Except.bind_eq_ok_iff, Except.bind_eq_error_iff, Except.pure_eq_ok_iff,
        reduceCtorEq, and_false, exists_false, false_or, Except.pure_ne_error, or_false] at h
      obtain ⟨components, h⟩ := h
      exact executeCampaign_ne_deferred components h

/-- What there is when a campaign is complete. -/
theorem of_complete {results : List Report}
    (h : rigCampaign only execute noCommit preview nodeState token push runCampaign =
      .ok (.complete results)) :
    execute = true ∧ (∃ state, nodeState = .ok state ∧ state.isUnresolved = false) ∧
      ∃ plan jobs trustAnchor observed, preview = .ok plan ∧
        push (only.map fun id => [id]) = .ok (jobs, trustAnchor, observed) ∧
        campaignExecute (.ok (jobs, trustAnchor, observed)) (only.map fun id => [id]) noCommit
          runCampaign = .ok results := by
  simp only [rigCampaign, Except.bind_eq_ok_iff, Except.mapError_eq_ok_iff] at h
  obtain ⟨plan, hpreview, h⟩ := h
  -- The command returns before the push where there is nothing to do, where what it is for is
  -- deferred, and without `--execute`.
  split at h
  · cases h
  split at h
  · cases h
  split at h
  · cases h
  · rename_i hexecute
    obtain ⟨results', hrun, heq⟩ := Except.bind_eq_ok_iff.mp h
    obtain rfl : results' = results := by simpa using Except.pure_eq_ok_iff.mp heq
    simp only [executeCampaign, Except.bind_eq_ok_iff, Except.mapError_eq_ok_iff] at hrun
    obtain ⟨state, hstate, hrun⟩ := hrun
    split at hrun
    · cases hrun
    · rename_i hresolved
      simp only [Except.bind_eq_ok_iff, Except.mapError_eq_ok_iff, campaign] at hrun
      obtain ⟨_, -, ⟨jobs, trustAnchor, observed⟩, hpush, hengine⟩ := hrun
      exact ⟨by simpa using hexecute, ⟨state, hstate, by simpa using hresolved⟩, plan, jobs,
        trustAnchor, observed, hpreview, hpush, hengine⟩

/-- A deferred assessment lists nothing that the vehicle advertises. -/
theorem not_advertised_of_deferred {observed desired : Tree}
    (h : (assessTree observed desired).outcome = .deferred) :
    ∀ path ∈ (assessTree observed desired).components, observed.containsKey path = false := by
  simp only [assessTree] at h ⊢
  split at h
  · split at h <;> cases h
  · split at h
    · rename_i hall
      simpa using hall
    · cases h

/-! ## The preview and the engine -/

variable {suit : Suit} {Value : Type} {sha : Sha256}

/-- The release of the sample, by a channel that points at it. -/
def rolloutSel : ChannelSel :=
  ⟨"stable", some "rig", some "arm64"⟩

/-- Another channel is pointed at the release. -/
def betaMove : ChangeStep Unit :=
  (.setTarget ⟨"beta", "rig", "arm64", 1⟩, [])

/-- The sample tower after both moves. -/
def laterTower : Tower .framed Unit :=
  { movedTower with server := movedTower.server.next (fun _ => true) (.ofDigests []) betaMove }

/-- An idle node that has its state under the legacy name. -/
def idleNode (url : String) : Except String RigResponse :=
  if url = "https://rig/vehicle/v1/data/x-ota-update-state" then
    .ok ⟨200, some (.object [("phase", .string "Idle")])⟩
  else .ok ⟨404, none⟩

/-- An engine that reports its jobs. -/
def echoEngine (_ : Bytes) (steps : List CampaignStep) (_ : Bool) : Except Error (List String) :=
  .ok (steps.flatMap fun step => step.jobs.map (·.componentId))

/-- The push of the sample for a vehicle. -/
def rolloutPush (vehicle : Tree) :
    Option (List String) → Except PlanError (List FlashJob × Bytes × Tree) :=
  l1FlashPlan .framed (.ok vehicle) rolloutDevice (laterTower.hub (.ofDigests []) .insertion)
    rolloutSel.target "device-1"

/-- The sample campaign for a vehicle. -/
def rolloutRun (vehicle : Tree) : Except CampaignError (CampaignOutcome String) :=
  rigCampaign none true false
    (applyPlan (.ok vehicle) (movedTower.previewHub (.ofDigests []) .insertion) rolloutSel.target
      none)
    (nodeUpdateState idleNode (fun _ => "") "https://rig/") (.ok ()) (rolloutPush vehicle)
    echoEngine

/-- A vehicle that has the part of the release. -/
def vehicleAtRelease : Tree :=
  .ofList [("vm1", { parts := [⟨"file", "kernel", sampleInner⟩] })]

end Run

end Cli
