import SumoProvision.Orchestrator.ApplyPlan
import SumoProvision.SoftwareTower.Partition
import SumoProvision.Wire.Serde

/-!
# The vehicle state in an L1 request

The orchestrator reads the rig, serialises the observed tree and sends it as `current_state` of an
L1 request (`l1_flash_plan`, `L1Req`). The tower decodes the request (`L1Request`) and parses the
state leniently: a report it cannot parse is dropped, and the full target is built.

`vehicle_state_roundtrip` says that this fallback is never taken for a request of the orchestrator:
the tower partitions the target against exactly the tree that was observed.
-/

open Wire
open Json (ofFields skipNone decodeString decodeOption decodeInt64 decodeUInt64)

/-! ## The request of the client -/

namespace Client

/-- `POST /channel-targets/l1` request body. -/
structure L1Req where
  channel : Option String
  vehicleReleaseId : Option Int64
  treeHash : Option String
  device : String
  architecture : String
  devicePubkey : String
  deviceId : String
  currentState : Option Json
  seq : UInt64

def L1Req.toJson (req : L1Req) : Json :=
  ofFields <| skipNone "channel" .string req.channel ++
    skipNone "vehicle_release_id" (fun id => .int id.toInt) req.vehicleReleaseId ++
    skipNone "tree_hash" .string req.treeHash ++
    [("device", .string req.device), ("architecture", .string req.architecture),
      ("device_pubkey", .string req.devicePubkey), ("device_id", .string req.deviceId)] ++
    skipNone "current_state" id req.currentState ++ [("seq", .int req.seq.toNat)]

end Client

/-! ## The request at the tower -/

namespace SoftwareTower

/-- `POST /channel-targets/l1` body. -/
structure L1Request where
  channel : Option String
  vehicleReleaseId : Option Int64
  treeHash : Option String
  device : String
  architecture : String
  devicePubkey : String
  deviceId : String
  currentState : Option Json
  seq : UInt64

def defaultL1Seq : UInt64 := 1

def L1Request.fromJson (json : Json) : Option L1Request := do
  let r ← json.record ["channel", "vehicle_release_id", "tree_hash", "device", "architecture",
    "device_pubkey", "device_id", "current_state", "seq"]
  let channel ← r.orDefault "channel" (decodeOption decodeString) none
  let vehicleReleaseId ← r.orDefault "vehicle_release_id" (decodeOption decodeInt64) none
  let treeHash ← r.orDefault "tree_hash" (decodeOption decodeString) none
  let device ← r.required "device" decodeString
  let architecture ← r.required "architecture" decodeString
  let devicePubkey ← r.required "device_pubkey" decodeString
  let deviceId ← r.required "device_id" decodeString
  -- Any document is accepted here; only its parsing decides whether it is used.
  let currentState ← r.orDefault "current_state" (decodeOption some) none
  let seq ← r.orDefault "seq" decodeUInt64 defaultL1Seq
  return ⟨channel, vehicleReleaseId, treeHash, device, architecture, devicePubkey, deviceId,
    currentState, seq⟩

/-- The vehicle's report in a request; one that cannot be parsed counts as none. -/
def reportedState (currentState : Option Json) : Option Tree :=
  match currentState with
  | none => none
  | some value => Tree.fromJson value

/-- The tower decodes what the client sends, unless the state is an explicit `null`. -/
theorem L1Request.fromJson_toJson (req : Client.L1Req) (h : req.currentState ≠ some .null) :
    fromJson req.toJson = some ⟨req.channel, req.vehicleReleaseId, req.treeHash, req.device,
      req.architecture, req.devicePubkey, req.deviceId, req.currentState, req.seq⟩ := by
  have hchannel := Json.elim_map_decodeOption Json.decodeString_string (by simp) req.channel
  have hid := Json.elim_map_decodeOption Json.decodeInt64_int (by simp) req.vehicleReleaseId
  have hhash := Json.elim_map_decodeOption Json.decodeString_string (by simp) req.treeHash
  have hstate : req.currentState.elim (some none) (decodeOption some) = some req.currentState := by
    cases hreq : req.currentState with
    | none => rfl
    | some json =>
      have hnull : json ≠ .null := fun heq => h (by rw [hreq, heq])
      exact Json.decodeOption_of_ne_null hnull
  simp [fromJson, Client.L1Req.toJson, Json.record_ofFields, Json.Record.orDefault,
    Json.Record.required, List.lookup_append, Json.lookup_skipNone, Json.lookup_cons, hchannel, hid,
    hhash, hstate]

end SoftwareTower

/-! ## The request of the orchestrator -/

namespace Orchestrator

open SoftwareTower

/-- The device and architecture of a target, both of which an L1 request needs. -/
def l1Selector (target : ChannelTarget) : Except Error (String × String) :=
  match target.device, target.architecture with
  | some device, some architecture => .ok (device, architecture)
  | _, _ => .error (.l1NeedsSelector target.channel)

/-- The request that `l1_flash_plan` sends for an observed tree. -/
def l1Req (target : ChannelTarget) (pubkey deviceId : String) (observed : Tree) :
    Except Error Client.L1Req := do
  let currentState := observed.toJson
  let (device, architecture) ← l1Selector target
  return match target.vehicleReleaseId with
    | some id => ⟨none, some id, target.treeHash, device, architecture, pubkey, deviceId,
        some currentState, 1⟩
    | none => ⟨some target.channel, none, none, device, architecture, pubkey, deviceId,
        some currentState, 1⟩

/-- Every tree is decoded from its JSON form. So every L1 request of the orchestrator is decoded by
the tower, its state is parsed as exactly the observed tree, and the target is partitioned against
that tree. -/
theorem vehicle_state_roundtrip (observed : Tree) :
    Tree.fromJson observed.toJson = some observed ∧
      ∀ (target : ChannelTarget) (pubkey deviceId : String) (body : Client.L1Req),
        l1Req target pubkey deviceId observed = .ok body →
          ∃ req, L1Request.fromJson body.toJson = some req ∧
            reportedState req.currentState = some observed ∧
            ∀ desired : Tree, partitionL1Components desired (reportedState req.currentState) =
              partitionL1Components desired (some observed) := by
  refine ⟨Tree.fromJson_toJson observed, ?_⟩
  intro target pubkey deviceId body hbody
  have hstate : body.currentState = some observed.toJson := by
    simp only [l1Req, Except.bind_eq_ok_iff, Except.pure_eq_ok_iff] at hbody
    obtain ⟨selector, -, rfl⟩ := hbody
    split <;> rfl
  have hnull : body.currentState ≠ some .null := by
    simp [hstate, Tree.toJson, ofFields]
  have hreported : reportedState body.currentState = some observed := by
    rw [hstate]
    exact Tree.fromJson_toJson observed
  refine ⟨_, L1Request.fromJson_toJson body hnull, hreported, fun desired => ?_⟩
  rw [hreported]

/-- The state of a rig with one component that reports its administrative state. -/
theorem vehicle_state_roundtrip_one_component :
    let observed : Tree := .ofList [("vm1",
      { kind := "vm", parts := [⟨"file", "kernel", ⟨Vector.replicate 32 7⟩⟩],
        adminDisabled := some false })]
    let target : ChannelTarget := ⟨"bleeding", some "rig", some "arm64", none, none⟩
    ∃ body, l1Req target "a1b2" "device-1" observed = .ok body ∧
      ∃ req, L1Request.fromJson body.toJson = some req ∧
        reportedState req.currentState = some observed := by
  intro observed target
  have hbody : l1Req target "a1b2" "device-1" observed = .ok ⟨some "bleeding", none, none, "rig",
    "arm64", "a1b2", "device-1", some observed.toJson, 1⟩ := rfl
  obtain ⟨req, hreq, hreported, -⟩ := (vehicle_state_roundtrip observed).2 target "a1b2" "device-1"
    _ hbody
  exact ⟨_, hbody, req, hreq, hreported⟩

end Orchestrator
