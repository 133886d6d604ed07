import SumoProvision.IdentityTower.Devices
import SumoProvision.Orchestrator.CampaignSteps
import SumoProvision.Orchestrator.EndToEnd
import SumoProvision.Orchestrator.VehicleState
import SumoProvision.SoftwareTower.LosslessResolution

/-!
# The L1 plan

`l1_flash_plan` is where the push starts: it reads the rig, asks Tower 1 for the device key, sends
both to `POST /channel-targets/l1` of Tower 2, and makes flash jobs of the answer. This module joins
the two sides: the handler `channelTargetL1` over the database, its reply on the wire, and the plan.

* `of_l1FlashPlan_eq_ok`: a plan that succeeds has resolved a tree, and its jobs are those that the
  orchestrator makes of the campaign for exactly this tree and the tree it observed, whatever faults
  the database met.
* `mem_jobs_iff`: which components have a job.
* `exists_release_of_l1Tree`: a request is answered for the tree of the release that it names.
-/

open Wire

/-! ## The endpoint -/

namespace SoftwareTower

variable {Value : Type} {suit : Suit}

/-- The device key of an L1 request: hexadecimal digits of a COSE key. -/
def decodeDevicePubkey (suit : Suit) (devicePubkey : String) : Except AppError Bytes :=
  match Hex.decode (Text.trim devicePubkey).toList with
  | none => .error (.badRequest "device_pubkey must be hex")
  | some bytes =>
    match suit.fromCoseKeyBytes bytes with
    | .ok _ => .ok bytes
    | .error _ => .error (.badRequest "device_pubkey is not a valid COSE_Key")

/-- The fields of an L1 request that select its target. -/
def L1Request.target (req : L1Request) : L1Target :=
  ⟨req.channel, req.vehicleReleaseId.map (·.toInt), req.treeHash, req.device, req.architecture⟩

/-- `POST /channel-targets/l1`. -/
def channelTargetL1 (sha : Sha256) (signer : Signer suit)
    (index : ContentHash → Option ArtifactEntry) (req : L1Request) :
    Prog (catalogSql Value) AppError L1Response := do
  let devicePubkey ← Prog.lift (decodeDevicePubkey suit req.devicePubkey)
  let tree ← l1Tree sha req.target
  Prog.lift (assembleL1 signer index ⟨devicePubkey, req.deviceId, req.seq.toNat⟩ tree
    (reportedState req.currentState))

/-- The body of a successful reply; that of 204 is empty. -/
def L1Response.body : L1Response → Bytes
  | .noContent => []
  | .cbor l1 => l1

/-- The status of an error reply. -/
def AppError.status : AppError → ℕ
  | .badHash => 400
  | .badRequest _ => 400
  | .notFound => 404
  | .internal _ => 500

/-- The check of a tree hash lets a tree through as it is. -/
theorem eq_of_checkTreeHash {sha : Sha256} {expected : Option String} {selected : Option Tree}
    {found : Option Tree} (h : checkTreeHash sha expected selected = .ok found) :
    selected = found := by
  unfold checkTreeHash at h
  split at h
  · split at h
    · exact Except.ok.inj h
    · cases h
  · exact Except.ok.inj h

/-- A handler that ends with a response has resolved a tree and assembled the L1 for it. -/
theorem run_channelTargetL1_eq_ok {sha : Sha256} {signer : Signer suit}
    {index : ContentHash → Option ArtifactEntry} {req : L1Request} {order : RowOrder}
    {x y : Server Value} {faults rest : List (Option (Fault SqlError))} {response : L1Response}
    (h : (channelTargetL1 sha signer index req).run (catalogDb order) faults x =
      (.ok response, rest, y)) :
    ∃ devicePubkey tree rest', decodeDevicePubkey suit req.devicePubkey = .ok devicePubkey ∧
      (l1Tree sha req.target).run (catalogDb order) faults x = (.ok tree, rest', y) ∧
      assembleL1 signer index ⟨devicePubkey, req.deviceId, req.seq.toNat⟩ tree
        (reportedState req.currentState) = .ok response := by
  obtain ⟨devicePubkey, _, _, hlift, hrest⟩ := Prog.run_bind_eq_ok_iff.mp h
  obtain ⟨hpubkey, rfl, rfl⟩ := Prog.run_lift_eq_ok_iff.mp hlift
  obtain ⟨tree, rest', _, htree, hlast⟩ := Prog.run_bind_eq_ok_iff.mp hrest
  obtain ⟨hassemble, -, rfl⟩ := Prog.run_lift_eq_ok_iff.mp hlast
  exact ⟨devicePubkey, tree, rest', hpubkey, htree, hassemble⟩

theorem reads_authorizePinned (req : L1Target) :
    (authorizePinned req : Prog (catalogSql Value) AppError Unit).Issues CatalogSql.Reads := by
  unfold authorizePinned
  split
  · refine (Prog.issues_perform (S := catalogSql Value) trivial _).bind fun found => ?_
    split <;> trivial
  · trivial

section Resolution

variable {sha : Sha256} {order : RowOrder} {x y : Server Value} {id : ℤ} {tree : Tree}
  {faults rest : List (Option (Fault SqlError))}

/-- The release that a channel points at. -/
def Catalog.channelVehicle (c : Catalog Value) (channel : String)
    (device architecture : Option String) : Option ℤ :=
  match device, architecture with
  | some d, some a => (c.findTarget channel d a).map (·.vehicleReleaseId)
  | _, _ =>
    let ids := (c.targetsOf channel).map (·.vehicleReleaseId)
    if ids.length = 1 then ids.head? else none

/-- The release that a selector names, by its id or by a channel. -/
def TargetSelector.release (sel : TargetSelector) (c : Catalog Value) : Option ℤ :=
  match sel.vehicleReleaseId, sel.channel with
  | some id, _ => if (c.releases.vehicleRelease id).isSome then some id else none
  | none, some channel => c.channelVehicle channel sel.device sel.architecture
  | none, none => none

theorem eq_of_run_channelTargetVehicle {channel : String} {device architecture : Option String}
    {v : Option ℤ} (h : (channelTargetVehicle channel device architecture).run (catalogDb order)
      faults x = (.ok v, rest, y)) :
    x.committed.channelVehicle channel device architecture = v ∧ x = y := by
  -- Only with both the channel is looked up by them.
  have hsingle : ∀ {v rest}, (singleTarget channel).run (catalogDb order) faults x =
      (.ok v, rest, y) → (let ids := (x.committed.targetsOf channel).map (·.vehicleReleaseId)
        if ids.length = 1 then ids.head? else none) = v ∧ x = y := by
    intro v rest hrun
    obtain ⟨ids, _, _, hids, hret⟩ := Prog.run_bind_eq_ok_iff.mp hrun
    obtain ⟨-, hresult, rfl⟩ := of_run_perform_eq_ok hids (exec_selectTargets order x channel)
    cases hresult
    cases hret
    exact ⟨rfl, rfl⟩
  cases device with
  | none => exact hsingle h
  | some d =>
    cases architecture with
    | none => exact hsingle h
    | some a =>
      obtain ⟨-, hresult, hxy⟩ := of_run_perform_eq_ok h (exec_selectTarget order x channel d a)
      exact ⟨Except.ok.inj hresult, hxy⟩

/-- A tree that a selector selects is the one of the release that it names. -/
theorem exists_release_of_selectTree {sel : TargetSelector}
    (h : (selectTree sel).run (catalogDb order) faults x = (.ok (some tree), rest, y)) :
    ∃ v, sel.release x.committed = some v ∧
      resolve order x.committed.releases v = .ok tree := by
  obtain ⟨channel, device, architecture, pinned, expected⟩ := sel
  -- A pinned release wins over the channel, as in `resolve_target`.
  cases pinned with
  | some id =>
    obtain ⟨found, _, _, hexists, h⟩ := Prog.run_bind_eq_ok_iff.mp h
    obtain ⟨-, hfound, rfl⟩ := of_run_perform_eq_ok hexists (exec_vehicleExists order x id)
    split at h
    · rename_i htrue
      obtain ⟨tree', _, _, hresolve, h⟩ := Prog.run_bind_eq_ok_iff.mp h
      cases h
      rw [← Except.ok.inj hfound] at htrue
      exact ⟨id, if_pos htrue, (run_resolveMembersToTree_of_ok hresolve).1⟩
    · cases h
  | none =>
    cases channel with
    | none => cases h
    | some channel =>
      obtain ⟨vehicle, _, x', hvehicle, hresolve⟩ := Prog.run_bind_eq_ok_iff.mp h
      obtain ⟨hpoints, rfl⟩ := eq_of_run_channelTargetVehicle hvehicle
      cases vehicle with
      | none => cases hresolve
      | some v =>
        obtain ⟨tree', _, _, hresolve, hsome⟩ := Prog.run_bind_eq_ok_iff.mp hresolve
        cases hsome
        exact ⟨v, hpoints, (run_resolveMembersToTree_of_ok hresolve).1⟩

/-- A selector that is resolved, whatever faults it met, is resolved to the tree of the release that
it names. -/
theorem exists_release_of_resolveTarget {sel : TargetSelector}
    (h : (resolveTarget sha sel).run (catalogDb order) faults x = (.ok (some tree), rest, y)) :
    ∃ v, sel.release x.committed = some v ∧
      resolve order x.committed.releases v = .ok tree := by
  obtain ⟨selected, _, _, hselect, hcheck⟩ := Prog.run_bind_eq_ok_iff.mp h
  obtain ⟨hcheck, -, -⟩ := Prog.run_lift_eq_ok_iff.mp hcheck
  -- The check of the tree hash lets only the selected tree through.
  obtain rfl : selected = some tree := eq_of_checkTreeHash hcheck
  exact exists_release_of_selectTree hselect

/-- The selector of an L1 request. -/
def L1Target.selector (req : L1Target) : TargetSelector :=
  ⟨req.channel, some req.device, some req.architecture, req.vehicleReleaseId, req.treeHash⟩

/-- An L1 request that is answered, whatever faults it met, is answered for the tree of the release
that it names. -/
theorem exists_release_of_l1Tree {req : L1Target}
    (h : (l1Tree sha req).run (catalogDb order) faults x = (.ok tree, rest, y)) :
    ∃ v, req.selector.release x.committed = some v ∧
      resolve order x.committed.releases v = .ok tree := by
  obtain ⟨_, faults', x', hauthorize, hresolve⟩ := Prog.run_bind_eq_ok_iff.mp h
  obtain rfl : x' = x := by
    have hreads : ((authorizePinned req).run (catalogDb order) faults x).2.2 = x :=
      run_snd_of_reads (reads_authorizePinned req) faults x
    rwa [hauthorize] at hreads
  obtain ⟨found, _, _, htarget, hfound⟩ := Prog.run_bind_eq_ok_iff.mp hresolve
  obtain ⟨hfound, -, -⟩ := Prog.run_lift_eq_ok_iff.mp hfound
  cases found with
  | none => cases hfound
  | some tree' =>
    obtain rfl : tree' = tree := Except.ok.inj hfound
    exact exists_release_of_resolveTarget htarget

/-- A selector with an id names the release with this id. -/
theorem TargetSelector.release_of_pinned {sel : TargetSelector} {id v : ℤ}
    (hpinned : sel.vehicleReleaseId = some id) {c : Catalog Value} (h : sel.release c = some v) :
    v = id := by
  rw [TargetSelector.release, hpinned] at h
  simp only [Option.ite_none_right_eq_some, Option.some.injEq] at h
  exact h.2.symm

/-- The entities of a resolved tree have distinct part ids. -/
theorem distinctIds_of_resolve {db : Db Value} (h : resolve order db id = .ok tree) :
    tree.DistinctIds := by
  rw [resolve] at h
  cases hentries : (order.members (db.membersOf id)).mapM (resolveEntry order db id) with
  | error e =>
    rw [hentries] at h
    cases h
  | ok entries =>
    rw [hentries] at h
    obtain rfl := Except.ok.inj h
    refine Tree.distinctIds_ofList fun entry hentry => ?_
    obtain ⟨m, -, hm⟩ := (Except.mapM_eq_ok_iff.mp hentries).exists_left hentry
    simp only [resolveEntry, Except.bind_eq_ok_iff, Except.pure_eq_ok_iff] at hm
    obtain ⟨row, -, parts, hparts, rfl⟩ := hm
    -- The ids are those of the rows, in whatever order these come.
    have hids : (order.parts (db.partsOf m.componentReleaseId)).map (·.partId) =
        parts.map Part.id := by
      refine ((Except.mapM_eq_ok_iff.mp hparts).imp fun p part hpart => ?_).map_eq_map
      unfold parseStoredHash at hpart
      split at hpart
      · cases hpart
        rfl
      · cases hpart
    have hperm := (order.perm_parts (db.partsOf m.componentReleaseId)).map (·.partId)
    rw [hids] at hperm
    exact hperm.nodup_iff.mpr (nodup_partIds db _)

end Resolution

/-- The ids of manifest components are as distinct as those of the parts. -/
theorem nodup_spec_ids {EncInfo : Type} {path : String} {parts : List Part}
    {specs : List (ComponentSpec EncInfo)} (hids : (parts.map (·.id)).Nodup)
    (hspecs : List.Forall₂ (fun p spec => spec.id = [path, p.id]) parts specs) :
    (specs.map (·.id)).Nodup := by
  have hmap : parts.map ((fun id => [path, id]) ∘ (·.id)) = specs.map (·.id) :=
    (hspecs.imp fun p spec hspec => hspec.symm).map_eq_map
  rw [← hmap, ← List.map_map]
  exact hids.map fun a b hab => by simpa using hab

section Body

variable {signer : Signer suit} {index : ContentHash → Option ArtifactEntry} {req : L1Recipient}
  {tree : Tree} {reported : Option Tree}

/-- A campaign has a body, as the empty one decodes to nothing. -/
theorem body_ne_nil_of_cbor (hempty : ∀ env, suit.decodeEnvelope [] ≠ .ok env) {l1 : Bytes}
    (h : assembleL1 signer index req tree reported = .ok (.cbor l1)) : l1 ≠ [] := by
  rintro rfl
  rcases assembleL1_eq_ok h with ⟨heq, -⟩ | ⟨l2s, l1, heq, hl2s, hl1⟩
  · cases heq
  · cases heq
    have hnames : emittedPaths tree reported = l2s.map (·.1) := by
      refine ((forall₂_of_buildL2s hl2s).imp fun c l2 hc => ?_).map_eq_map
      exact hc.1.symm
    obtain ⟨env, hdecode, -⟩ :=
      suit.decode_campaign (hnames ▸ nodup_emittedPaths tree reported) hl1
    exact hempty env hdecode

end Body

end SoftwareTower

/-! ## The plan -/

namespace Orchestrator

open SoftwareTower IdentityTower

/-- The errors of the plan: those of its steps, and a device that Tower 1 does not know or has no
key of. -/
inductive PlanError where
  | step (e : Error)
  | deviceNotFound (id : String)
  | deviceNoPubkey (id : String)
  deriving DecidableEq

/-- Resolve a device's registered public key from Tower 1. -/
def devicePubkey (getDevice : String → Except Error (Option Device)) (deviceId : String) :
    Except PlanError String := do
  match ← (getDevice deviceId).mapError .step with
  | none => .error (.deviceNotFound deviceId)
  | some device => device.pubkey.elim (.error (.deviceNoPubkey deviceId)) .ok

/-- The calls of Tower 2 that the push makes. -/
structure L1Hub where
  /-- `channel_target_l1` and `vehicle_release_l1`. -/
  l1 : Client.L1Req → Except Error Bytes
  getBlob : ContentHash → Except Error (Option Bytes)
  signerPubkey : Except Error Bytes

/-- The plan source of the push: the jobs, the trust anchor and the observed tree. -/
def l1FlashPlan (suit : Suit) (rig : Except Error Tree)
    (getDevice : String → Except Error (Option Device)) (hub : L1Hub) (target : ChannelTarget)
    (deviceId : String) (only : Option (List String)) :
    Except PlanError (List FlashJob × Bytes × Tree) := do
  let observed ← rig.mapError .step
  let pubkey ← devicePubkey getDevice deviceId
  let req ← (l1Req target pubkey deviceId observed).mapError .step
  let l1 ← (hub.l1 req).mapError .step
  -- 204: the vehicle is at target, and there is no campaign to decode.
  if l1.isEmpty then return ([], [], observed)
  else
    let components ← (fanoutL1 suit l1).mapError .step
    let jobs ← (l1Jobs (softwareClient hub.getBlob) components observed only).mapError .step
    let trustAnchor ← hub.signerPubkey.mapError .step
    return (jobs, trustAnchor, observed)

/-- `campaign_execute` on a plan. -/
def campaign {Report : Type} (plan : Except PlanError (List FlashJob × Bytes × Tree))
    (only : Option (List String)) (noCommit : Bool)
    (runCampaign : Bytes → List CampaignStep → Bool → Except Error (List Report)) :
    Except PlanError (List Report) := do
  let planned ← plan
  (campaignExecute (.ok planned) only noCommit runCampaign).mapError .step

/-- Tower 2 at the time of a request, and the faults that the statements of the request meet. -/
structure Tower (suit : Suit) (Value : Type) where
  signer : Signer suit
  signerPubkey : Bytes
  index : ContentHash → Option ArtifactEntry
  blobs : ContentHash → Option Bytes
  server : Server Value
  faults : List (Option (Fault SqlError))
  /-- The requests for blobs that fail, with an error status or because the connection is lost. That
  a blob is not there is no failure of the request. -/
  blobFaults : ContentHash → Option (Option ℕ) := fun _ => none
  /-- The same for the request for the signer key. -/
  signerFault : Option (Option ℕ) := none
  /-- The client's words for an error status, and for a connection that was lost. -/
  clientError : Option ℕ → String

section Hub

variable {suit : Suit} {Value : Type} (sha : Sha256) (order : RowOrder)

/-- The tower's answer to a request for an L1, as the client takes it. -/
def Tower.reply (tower : Tower suit Value) (req : L1Request) : Except Error Bytes :=
  match ((channelTargetL1 sha tower.signer tower.index req).run (catalogDb order) tower.faults
    tower.server).1 with
  | .ok response => .ok response.body
  | .error (.failed e) => .error (.client (tower.clientError (some e.status)))
  | .error .dropped => .error (.client (tower.clientError none))

/-- The client's request for an L1, decoded and answered by the tower. -/
def Tower.l1 (tower : Tower suit Value) (body : Client.L1Req) : Except Error Bytes :=
  match L1Request.fromJson body.toJson with
  | none => .error (.client (tower.clientError (some 422)))
  | some req => tower.reply sha order req

/-- `SoftwareClient::get_blob`. -/
def Tower.getBlob (tower : Tower suit Value) (outer : ContentHash) : Except Error (Option Bytes) :=
  match tower.blobFaults outer with
  | some status => .error (.client (tower.clientError status))
  | none => .ok (tower.blobs outer)

/-- `SoftwareClient::signer_pubkey`. -/
def Tower.getSignerPubkey (tower : Tower suit Value) : Except Error Bytes :=
  match tower.signerFault with
  | some status => .error (.client (tower.clientError status))
  | none => .ok tower.signerPubkey

/-- The tower as the orchestrator sees it. -/
def Tower.hub (tower : Tower suit Value) : L1Hub where
  l1 := tower.l1 sha order
  getBlob := tower.getBlob
  signerPubkey := tower.getSignerPubkey

/-- A blob that is there is fetched unless the request fails. -/
theorem Tower.softwareClient_eq_ok_iff {tower : Tower suit Value} {outer : ContentHash}
    {bytes : Bytes} : softwareClient tower.getBlob outer = .ok bytes ↔
      tower.blobFaults outer = none ∧ tower.blobs outer = some bytes := by
  rw [softwareClient, Tower.getBlob]
  cases tower.blobFaults outer with
  | some status => simp [bind, Except.bind]
  | none => cases tower.blobs outer <;> simp [bind, Except.bind, pure, Except.pure]

theorem Tower.getSignerPubkey_eq_ok_iff {tower : Tower suit Value} {key : Bytes} :
    tower.getSignerPubkey = .ok key ↔ tower.signerFault = none ∧ tower.signerPubkey = key := by
  rw [Tower.getSignerPubkey]
  cases tower.signerFault <;> simp

end Hub

/-! ## What a plan consists of -/

/-- The fields of the orchestrator's request that select its target: the pinned release, or else the
channel. -/
def ChannelTarget.l1Target (target : ChannelTarget) (device architecture : String) : L1Target :=
  match target.vehicleReleaseId with
  | some id => ⟨none, some id.toInt, target.treeHash, device, architecture⟩
  | none => ⟨some target.channel, none, none, device, architecture⟩

/-- The selector of a target. -/
def ChannelTarget.selector (target : ChannelTarget) : TargetSelector :=
  match target.vehicleReleaseId with
  | some id => ⟨none, none, none, some id.toInt, target.treeHash⟩
  | none => ⟨some target.channel, target.device, target.architecture, none, none⟩

/-- The plan of a device for an observed tree: the tower has resolved the target to a tree, it has
assembled the L1 for this tree, the observed one and the key that Tower 1 has of the device, and the
jobs are those of the L1. -/
structure PlanOf {suit : Suit} {Value : Type} (sha : Sha256) (order : RowOrder)
    (tower : Tower suit Value) (getDevice : String → Except Error (Option Device))
    (target : ChannelTarget) (deviceId : String) (only : Option (List String)) (observed : Tree)
    (jobs : List FlashJob) (recipient : L1Recipient) (tree : Tree) (response : L1Response) :
    Prop where
  kid : recipient.deviceId = deviceId
  key : ∃ pubkey, devicePubkey getDevice deviceId = .ok pubkey ∧
    decodeDevicePubkey suit pubkey = .ok recipient.devicePubkey
  resolved : ∃ device architecture rest server, l1Selector target = .ok (device, architecture) ∧
    (l1Tree sha (target.l1Target device architecture)).run (catalogDb order) tower.faults
      tower.server = (.ok tree, rest, server)
  assembled : assembleL1 tower.signer tower.index recipient tree (some observed) = .ok response
  dispatched : dispatch suit (softwareClient tower.getBlob) response observed only = .ok jobs

section Plan

variable {suit : Suit} {Value : Type} {sha : Sha256} {order : RowOrder} {tower : Tower suit Value}
  {rig : Except Error Tree} {getDevice : String → Except Error (Option Device)}
  {target : ChannelTarget} {deviceId : String} {only : Option (List String)}

theorem ChannelTarget.vehicleReleaseId_selector {id : Int64}
    (h : target.vehicleReleaseId = some id) :
    target.selector.vehicleReleaseId = some id.toInt := by
  rw [ChannelTarget.selector, h]

/-- An L1 request names the release that its target names. -/
theorem release_l1Target {device architecture : String}
    (h : l1Selector target = .ok (device, architecture)) (c : Catalog Value) :
    (target.l1Target device architecture).selector.release c = target.selector.release c := by
  have hselector : target.device = some device ∧ target.architecture = some architecture := by
    unfold l1Selector at h
    split at h
    · rename_i hdevice harchitecture
      cases h
      exact ⟨hdevice, harchitecture⟩
    · cases h
  unfold ChannelTarget.l1Target ChannelTarget.selector
  split
  · rfl
  · rw [hselector.1, hselector.2]
    rfl

/-- The tree of a plan is the one of the release that its target names. -/
theorem PlanOf.exists_release {observed : Tree} {jobs : List FlashJob} {recipient : L1Recipient}
    {tree : Tree} {response : L1Response}
    (h : PlanOf sha order tower getDevice target deviceId only observed jobs recipient tree
      response) :
    ∃ v, target.selector.release tower.server.committed = some v ∧
      resolve order tower.server.committed.releases v = .ok tree := by
  obtain ⟨device, architecture, rest, server, hselector, htree⟩ := h.resolved
  obtain ⟨v, hrelease, hv⟩ := exists_release_of_l1Tree htree
  exact ⟨v, (release_l1Target hselector _).symm.trans hrelease, hv⟩

/-- The request that the orchestrator sends. -/
theorem of_l1Req_eq_ok {pubkey : String} {observed : Tree} {body : Client.L1Req}
    (h : l1Req target pubkey deviceId observed = .ok body) :
    ∃ device architecture, l1Selector target = .ok (device, architecture) ∧
      ∃ channel id treeHash, body = ⟨channel, id, treeHash, device, architecture, pubkey, deviceId,
        some observed.toJson, 1⟩ ∧
        (⟨channel, id.map (·.toInt), treeHash, device, architecture⟩ : L1Target) =
          target.l1Target device architecture := by
  simp only [l1Req, Except.bind_eq_ok_iff, Except.pure_eq_ok_iff] at h
  obtain ⟨⟨device, architecture⟩, hselector, rfl⟩ := h
  refine ⟨device, architecture, hselector, ?_⟩
  cases hid : target.vehicleReleaseId with
  | some id => exact ⟨none, some id, target.treeHash, rfl, by simp [ChannelTarget.l1Target, hid]⟩
  | none => exact ⟨some target.channel, none, none, rfl, by simp [ChannelTarget.l1Target, hid]⟩

theorem of_reply_eq_ok {req : L1Request} {l1 : Bytes} (h : tower.reply sha order req = .ok l1) :
    ∃ response rest server, (channelTargetL1 sha tower.signer tower.index req).run (catalogDb order)
        tower.faults tower.server = (.ok response, rest, server) ∧ response.body = l1 := by
  rcases hrun : (channelTargetL1 sha tower.signer tower.index req).run (catalogDb order)
    tower.faults tower.server with ⟨(e | _) | response, rest, server⟩
  all_goals rw [Tower.reply, hrun] at h
  · cases h
  · cases h
  · exact ⟨response, rest, server, rfl, Except.ok.inj h⟩

/-- An answer of the tower to the orchestrator: the L1 for a tree that was resolved, assembled
against the tree that the orchestrator observed. -/
theorem of_l1_eq_ok {pubkey : String} {observed : Tree} {body : Client.L1Req} {l1 : Bytes}
    (hbody : l1Req target pubkey deviceId observed = .ok body)
    (h : tower.l1 sha order body = .ok l1) :
    ∃ key tree response, decodeDevicePubkey suit pubkey = .ok key ∧
      (∃ device architecture rest server, l1Selector target = .ok (device, architecture) ∧
        (l1Tree sha (target.l1Target device architecture)).run (catalogDb order) tower.faults
          tower.server = (.ok tree, rest, server)) ∧
      assembleL1 tower.signer tower.index ⟨key, deviceId, 1⟩ tree (some observed) = .ok response ∧
      response.body = l1 := by
  obtain ⟨device, architecture, hselector, channel, id, treeHash, rfl, htarget⟩ :=
    of_l1Req_eq_ok hbody
  rw [Tower.l1, L1Request.fromJson_toJson _ (by simp [Tree.toJson, Json.ofFields])] at h
  obtain ⟨response, rest, server, hrun, hbytes⟩ := of_reply_eq_ok h
  obtain ⟨key, tree, rest', hkey, htree, hassemble⟩ := run_channelTargetL1_eq_ok hrun
  rw [L1Request.target, htarget] at htree
  -- The state arrives as the tree that was sent.
  rw [reportedState, Tree.fromJson_toJson] at hassemble
  exact ⟨key, tree, response, hkey, ⟨device, architecture, rest', server, hselector, htree⟩,
    hassemble, hbytes⟩

/-- What a plan that succeeds consists of. -/
theorem of_l1FlashPlan_eq_ok (hempty : ∀ env, suit.decodeEnvelope [] ≠ .ok env)
    {jobs : List FlashJob} {trustAnchor : Bytes} {observed : Tree}
    (h : l1FlashPlan suit rig getDevice (tower.hub sha order) target deviceId only =
      .ok (jobs, trustAnchor, observed)) :
    rig = .ok observed ∧ ∃ recipient tree response,
      PlanOf sha order tower getDevice target deviceId only observed jobs recipient tree
        response := by
  simp only [l1FlashPlan, Except.bind_eq_ok_iff, Except.mapError_eq_ok_iff] at h
  obtain ⟨observed', hrig, pubkey, hpubkey, body, hbody, l1, hl1, h⟩ := h
  obtain ⟨key, tree, response, hkey, hresolved, hassemble, rfl⟩ := of_l1_eq_ok hbody hl1
  split at h
  · -- The answer is empty exactly where it is `204 No Content`, since an L1 is never empty.
    rename_i hnil
    obtain ⟨rfl, -, rfl⟩ : [] = jobs ∧ [] = trustAnchor ∧ observed' = observed := by
      simpa using Except.pure_eq_ok_iff.mp h
    refine ⟨hrig, _, tree, response, rfl, ⟨pubkey, hpubkey, hkey⟩, hresolved, hassemble, ?_⟩
    cases response with
    | noContent => rfl
    | cbor l1 => exact absurd (List.isEmpty_iff.mp hnil) (body_ne_nil_of_cbor hempty hassemble)
  · rename_i hnil
    simp only [Except.bind_eq_ok_iff, Except.mapError_eq_ok_iff, Except.pure_eq_ok_iff] at h
    obtain ⟨components, hcomponents, jobs', hjobs, _, -, heq⟩ := h
    obtain ⟨rfl, -, rfl⟩ := by simpa using heq
    refine ⟨hrig, _, tree, response, rfl, ⟨pubkey, hpubkey, hkey⟩, hresolved, hassemble, ?_⟩
    cases response with
    | noContent => exact absurd rfl hnil
    | cbor l1 =>
      rw [dispatch]
      exact Except.bind_eq_ok_iff.mpr ⟨components, hcomponents, hjobs⟩

section Dispatch

variable {signer : Signer suit} {index : ContentHash → Option ArtifactEntry} {req : L1Recipient}
  {desired observed : Tree} {response : L1Response} {blobs : BlobSource} {jobs : List FlashJob}

/-- An answer of the tower is made of slices, one for each component that is emitted; its jobs are
those of the slices whose component is pushed, in order. -/
theorem slices_of_response (hids : desired.DistinctIds)
    (hresponse : assembleL1 signer index req desired (some observed) = .ok response) :
    ∃ slices : List L1Component, (slices.map (·.component)).Nodup ∧
      (∀ path, path ∈ slices.map (·.component) ↔ path ∈ emittedPaths desired (some observed)) ∧
      (∀ s ∈ slices, ∃ des, desired.get? s.component = some des ∧
        SliceOf signer index req (s.component, des) s) ∧
      (∀ l1, response = .cbor l1 → fanoutL1 suit l1 = .ok slices) ∧
      ∀ blobs only, dispatch suit blobs response observed only =
        l1Jobs blobs slices observed only := by
  rcases assembleL1_eq_ok hresponse with ⟨rfl, hnone⟩ | ⟨l2s, l1, rfl, hl2s, hl1⟩
  · exact ⟨[], List.nodup_nil, by simp [emittedPaths, hnone], by simp, by simp, fun _ _ => rfl⟩
  · obtain ⟨slices, hfanout, hsorted, hslices, hcomplete⟩ := fanoutL1_of_campaign
      (nodup_emittedPaths desired (some observed))
      (fun c hc => hids _ _ (mem_emitted.mp hc).1) hl2s hl1
    -- The slices are those of the components, in the order of their paths.
    refine ⟨slices, hsorted.imp ne_of_lt, fun path => ?_, fun s hs => ?_, ?_, fun blobs only => ?_⟩
    · simp only [emittedPaths, List.mem_map]
      constructor
      · rintro ⟨s, hs, rfl⟩
        obtain ⟨c, hc, hof⟩ := hslices s hs
        exact ⟨c, hc, hof.1.symm⟩
      · rintro ⟨c, hc, rfl⟩
        exact List.mem_map.mp (hcomplete c hc)
    · obtain ⟨c, hc, hof⟩ := hslices s hs
      rw [hof.1]
      exact ⟨c.2, (mem_emitted.mp hc).1, hof⟩
    · rintro _ ⟨⟩
      exact hfanout
    · rw [dispatch, hfanout, Except.ok_bind]

theorem of_l1Job_eq_ok {s : L1Component} {job : FlashJob}
    (h : l1Job blobs observed s = .ok job) :
    job.componentId = s.component ∧ job.envelope = s.envelope ∧
      payloads blobs s observed = .ok job.payloads := by
  simp only [l1Job, Except.bind_eq_ok_iff, Except.pure_eq_ok_iff] at h
  obtain ⟨ps, hps, rfl⟩ := h
  exact ⟨rfl, rfl, hps⟩

/-- The jobs carry the names of the slices that are pushed. -/
theorem l1Jobs_names {slices : List L1Component}
    (h : l1Jobs blobs slices observed only = .ok jobs) :
    jobs.map (·.componentId) =
      (slices.filter fun s => pushed observed only s.component).map (·.component) := by
  rw [l1Jobs_eq, Except.mapM_eq_ok_iff] at h
  symm
  apply List.Forall₂.map_eq_map
  exact h.imp fun s job hjob => (of_l1Job_eq_ok hjob).1.symm

/-- No component has two jobs. -/
theorem nodup_jobs (hids : desired.DistinctIds)
    (hresponse : assembleL1 signer index req desired (some observed) = .ok response)
    (hjobs : dispatch suit blobs response observed only = .ok jobs) :
    (jobs.map (·.componentId)).Nodup := by
  obtain ⟨slices, hnodup, -, -, -, hdispatch⟩ := slices_of_response hids hresponse
  rw [hdispatch] at hjobs
  rw [l1Jobs_names hjobs]
  exact hnodup.sublist (List.filter_sublist.map _)

/-- The jobs of an L1 are one for each component that is emitted, that the vehicle advertises and
that the allowlist has. -/
theorem mem_jobs_iff (hids : desired.DistinctIds)
    (hresponse : assembleL1 signer index req desired (some observed) = .ok response)
    (hjobs : dispatch suit blobs response observed only = .ok jobs) {path : String} :
    path ∈ jobs.map (·.componentId) ↔
      path ∈ emittedPaths desired (some observed) ∧ observed.containsKey path = true ∧
        ∀ allow, only = some allow → path ∈ allow := by
  obtain ⟨slices, -, hemitted, -, -, hdispatch⟩ := slices_of_response hids hresponse
  rw [hdispatch] at hjobs
  rw [l1Jobs_names hjobs, ← hemitted, and_comm (a := observed.containsKey path = true),
    ← pushed_iff]
  simp only [List.mem_map, List.mem_filter]
  constructor
  · rintro ⟨s, ⟨hs, hpushed⟩, rfl⟩
    exact ⟨⟨s, hs, rfl⟩, hpushed⟩
  · rintro ⟨⟨s, hs, rfl⟩, hpushed⟩
    exact ⟨s, ⟨hs, hpushed⟩, rfl⟩

/-- Every job is the one of the slice of its component of the target. -/
theorem slice_of_mem_jobs (hids : desired.DistinctIds)
    (hresponse : assembleL1 signer index req desired (some observed) = .ok response)
    (hjobs : dispatch suit blobs response observed only = .ok jobs) {job : FlashJob}
    (hjob : job ∈ jobs) :
    ∃ s des, desired.get? job.componentId = some des ∧
      SliceOf signer index req (job.componentId, des) s ∧ s.envelope = job.envelope ∧
      payloads blobs s observed = .ok job.payloads := by
  obtain ⟨slices, -, -, hslices, -, hdispatch⟩ := slices_of_response hids hresponse
  rw [hdispatch, l1Jobs_eq, Except.mapM_eq_ok_iff] at hjobs
  obtain ⟨s, hs, hl1Job⟩ := hjobs.exists_left hjob
  obtain ⟨hcomponent, henvelope, hpayloads⟩ := of_l1Job_eq_ok hl1Job
  obtain ⟨des, hdes, hof⟩ := hslices s (List.mem_of_mem_filter hs)
  rw [hcomponent]
  exact ⟨s, des, hdes, hof, henvelope.symm, hpayloads⟩

/-- Every job carries the L2 that the tower built for the job's component of the target. -/
theorem buildL2_of_mem_jobs (hids : desired.DistinctIds)
    (hresponse : assembleL1 signer index req desired (some observed) = .ok response)
    (hjobs : dispatch suit blobs response observed only = .ok jobs) {job : FlashJob}
    (hjob : job ∈ jobs) :
    ∃ des, desired.get? job.componentId = some des ∧
      buildL2 signer index req job.componentId des = .ok job.envelope := by
  obtain ⟨s, des, hdes, hof, henvelope, -⟩ := slice_of_mem_jobs hids hresponse hjobs hjob
  rw [← henvelope]
  exact ⟨des, hdes, hof.2.1⟩

end Dispatch

end Plan

/-! ## A release of one component -/

/-- The release tables with a release of `vm1`. -/
def rolloutDb : Db Unit where
  componentReleases := ⟨[⟨1, "vm1", "vm", "1.0", 0, none⟩], by simp⟩
  parts := ⟨[⟨1, "kernel", "file", sampleInner.toPrefixed⟩], by simp⟩
  vehicleReleases := ⟨[⟨1, "rig", "1", 1, none, none⟩], by simp⟩
  members := ⟨[⟨1, 1, false⟩], by simp⟩
  componentSeq := 2
  vehicleSeq := 2
  clock := (· + 2)
  componentIds := by decide
  vehicleIds := by decide
  partTexts := by decide +kernel
  partRelease := by decide
  memberVehicle := by decide
  memberComponent := by decide

/-- A server that has pointed a channel at the release. -/
@[irreducible] def rolloutServer : Server Unit where
  committed :=
    { (Catalog.empty sampleClocks : Catalog Unit) with
      releases := rolloutDb
      releaseTargets := ⟨[⟨1, "rig", "arm64"⟩], by simp⟩
      clock := (· + 1)
      targetTexts := by decide +kernel
      targetRelease := by simp [rolloutDb]
      channelRelease := by simp [Catalog.empty] }
  pending := none

/-- A tower with this server. -/
def rolloutTower : Tower .framed Unit where
  signer := ⟨(), 0⟩
  signerPubkey := [1]
  index inner := some ⟨inner, ⟨.replicate 32 9⟩, .replicate 16 3, .replicate 12 4, 5⟩
  blobs _ := some [1, 2, 3, 4, 5]
  server := rolloutServer
  faults := []
  clientError _ := "error sending request"

/-- Every device has a key. -/
def rolloutDevice (id : String) : Except Error (Option Device) :=
  .ok (some ⟨id, none, .enrolled, some "a1b2"⟩)

/-- The release is pinned. -/
def rolloutTarget : ChannelTarget :=
  ⟨"stable", some "rig", some "arm64", some 1, none⟩

/-- A vehicle with a kernel of `vm1`. -/
def vehicleWith (kernel : ContentHash) : Tree :=
  .ofList [("vm1", { parts := [⟨"file", "boot.img", kernel⟩] })]

/-- The kernel of the vehicle before the campaigns. -/
def oldKernel : ContentHash :=
  ⟨.replicate 32 7⟩

end Orchestrator
