import SumoProvision.IdentityTower.Keystore
import SumoProvision.Orchestrator.PushedContent

/-!
# Provisioning a device

A device is provisioned by both towers: `ca mint-keystore` fetches the signer key of Tower 2 and has
Tower 1 mint a keystore for the device with this key as its software authority, and every later push
has Tower 2 wrap content keys for the key that Tower 1 has of the device.

`provisioned_device_installs` says that the private key of the device opens both: the keystore, in
which it finds the key that the push is signed with, and what the push sends. Both towers may have
changed between the two, as long as the one still has this key of the device and the other one its
signer key.
-/

namespace IdentityTower

/-- The status of an error response. -/
def AppError.status : AppError → ℕ
  | .notFound => 404
  | .badRequest _ => 400
  | .internal _ => 500

/-- The status of the response to a mint that fails. -/
def MintError.status : MintError → ℕ
  | .badRequest _ => 400
  | .internal _ => 500

end IdentityTower

namespace Cli

open Wire SoftwareTower IdentityTower Orchestrator

/-! ## Tower 1 and its client -/

/-- Tower 1 with its database, between two requests. -/
structure Identity (suit : Suit) where
  hsm : Hsm
  ec2 : Ec2 suit
  off : Offboard suit
  state : MintState
  roster : Roster
  collate : String → String → Bool
  faults : Faults
  /-- The client's words for an error status, and for a connection that was lost. -/
  clientError : Option ℕ → String

section Client

variable {suit : Suit} (identity : Identity suit) (sha : Sha256)

/-- `IdentityClient::get_device`: nothing if the device is not registered. -/
def Identity.getDevice (id : String) : Except Error (Option Device) :=
  match ((IdentityTower.getDevice identity.ec2 sha id).run (rosterReadDb identity.collate)
    identity.faults identity.roster).1 with
  | .ok d => .ok (some ⟨d.id, d.model, d.status, d.pubkey⟩)
  | .error (.failed .notFound) => .ok none
  | .error (.failed e) => .error (.client (identity.clientError (some e.status)))
  | .error .dropped => .error (.client (identity.clientError none))

/-- `IdentityClient::mint_keystore`, which leaves the security version to the tower. -/
def Identity.mintKeystore (call : MintCall suit) (id swAuthorityPubkey : String) :
    Except Error Bytes :=
  match ((mintKeystoreEndpoint identity.hsm identity.ec2 identity.off sha identity.state call id
    { swAuthorityPubkey }).run (rosterReadDb identity.collate) identity.faults
      identity.roster).1 with
  | .ok envelope => .ok envelope
  | .error (.failed e) => .error (.client (identity.clientError (some e.status)))
  | .error .dropped => .error (.client (identity.clientError none))

/-- `ca mint-keystore`. -/
def mintKeystoreCmd (hub : L1Hub) (call : MintCall suit) (id : String) : Except Error Bytes := do
  let swPubkey ← hub.signerPubkey
  identity.mintKeystore sha call id (hexEncode swPubkey)

variable {identity} {sha}

/-- The key that a push uses is the one in the roster. -/
theorem pubkeyOf_of_devicePubkey {id pubkey : String}
    (h : devicePubkey (identity.getDevice sha) id = .ok pubkey) :
    identity.roster.pubkeyOf id = some pubkey := by
  obtain ⟨device, hdevice, hpubkey⟩ := Except.bind_eq_ok_iff.mp h
  rw [Except.mapError_eq_ok_iff, Identity.getDevice] at hdevice
  split at hdevice
  · rename_i hget
    cases hdevice
    obtain ⟨r, hfind, rfl⟩ := run_getDevice_of_ok hget
    rw [Roster.pubkeyOf, hfind]
    simp only [deviceFromRow] at hpubkey
    cases hr : r.pubkey with
    | none =>
      rw [hr] at hpubkey
      cases hpubkey
    | some _ =>
      rw [hr] at hpubkey
      cases hpubkey
      exact hr
  · cases hdevice
    cases hpubkey
  · cases hdevice
  · cases hdevice

/-- A keystore that the command gets was minted for the signer key of the hub. -/
theorem mint_of_mintKeystoreCmd {hub : L1Hub} {call : MintCall suit} {id : String}
    {envelope : Bytes} (h : mintKeystoreCmd identity sha hub call id = .ok envelope) :
    ∃ swPubkey, hub.signerPubkey = .ok swPubkey ∧
      ((mintKeystoreEndpoint identity.hsm identity.ec2 identity.off sha identity.state call id
        ⟨hexEncode swPubkey, 1⟩).run (rosterReadDb identity.collate) identity.faults
          identity.roster).1 = .ok envelope := by
  obtain ⟨swPubkey, hsw, h⟩ := Except.bind_eq_ok_iff.mp h
  refine ⟨swPubkey, hsw, ?_⟩
  unfold Identity.mintKeystore at h
  split at h
  · rename_i hrun
    cases h
    exact hrun
  · cases h
  · cases h

end Client

/-- A plan that has a job carries the signer key of the hub. -/
theorem trustAnchor_of_l1FlashPlan {suit : Suit} {rig : Except Error Tree}
    {getDevice : String → Except Error (Option Device)} {hub : L1Hub}
    {target : Orchestrator.ChannelTarget} {deviceId : String} {only : Option (List String)}
    {jobs : List FlashJob} {trustAnchor : Bytes} {observed : Tree}
    (h : l1FlashPlan suit rig getDevice hub target deviceId only =
      .ok (jobs, trustAnchor, observed)) :
    jobs = [] ∨ hub.signerPubkey = .ok trustAnchor := by
  simp only [l1FlashPlan, Except.bind_eq_ok_iff, Except.mapError_eq_ok_iff] at h
  obtain ⟨_, -, _, -, _, -, l1, -, h⟩ := h
  split at h
  · exact .inl (congrArg Prod.fst (Except.pure_eq_ok_iff.mp h)).symm
  · simp only [Except.bind_eq_ok_iff, Except.mapError_eq_ok_iff] at h
    obtain ⟨_, -, _, -, anchor, hanchor, hret⟩ := h
    cases Except.pure_eq_ok_iff.mp hret
    exact .inr hanchor

/-! ## Both towers -/

/-- What the roster has as the key of a device, if it has one, is this key. -/
def RosterKey (suit : Suit) (roster : Roster) (id : String) (key : suit.Key) : Prop :=
  ∀ pubkey, roster.pubkeyOf id = some pubkey →
    ∃ cose, Hex.decode (Text.trim pubkey).toList = some cose ∧
      suit.fromCoseKeyBytes cose = .ok key

section Provision

variable {ι : Type} [DecidableEq ι] {suit : Suit} {Value : Type} {codec : Codec} {sha : Sha256}
  {calls : ι → Upload} {order : RowOrder} {tower tower' : Tower suit Value}
  {rig : Except Error Tree} {target : Orchestrator.ChannelTarget} {deviceId : String}
  {only : Option (List String)} {identity identity' : Identity suit}

/-- A keystore that the command gets opens on the device whose key is in the roster, and its
software authority is the signer key of the hub. -/
theorem openKeystore_of_mintKeystoreCmd (hdoc : identity.hsm.Documented)
    (hfactory : ∀ key, suit.fromCoseKeyBytes identity.hsm.factoryKeyCbor = .ok key →
      identity.ec2.ec2PublicXy key = .ok (coordinates identity.hsm.factorySigningPublic))
    (on : Onboard identity.ec2 identity.off) (hsmKey : on.SecretKey)
    (hkey : RosterKey suit identity.roster deviceId (on.publicKey hsmKey)) {hub : L1Hub}
    {call : MintCall suit} {envelope : Bytes}
    (hmint : mintKeystoreCmd identity sha hub call deviceId = .ok envelope) :
    ∃ ks swPubkey swAuthority keyAuthority root, hub.signerPubkey = .ok swPubkey ∧
      identity.ec2.coseToSec1 swPubkey = .ok swAuthority ∧
      on.openKeystore identity.hsm sha hsmKey identity.hsm.factorySigningPublic envelope =
        some ks ∧
      ks.Provisions identity.hsm swAuthority keyAuthority 1
        (identity.roster.certOf deviceId "tls-identity") root := by
  obtain ⟨swPubkey, hsw, hminted⟩ := mint_of_mintKeystoreCmd hmint
  obtain ⟨pubkey, cose, swCose, keyAuthority, root, hpubkey, hcose, hswCose, -, -, hminted⟩ :=
    run_mintKeystoreEndpoint_of_ok hminted
  obtain ⟨swAuthority, key, hswAuthority, hdecoded, hopen⟩ :=
    openKeystore_of_mintKeystore hdoc hfactory hminted
  obtain ⟨cose', hcose', hkey'⟩ := hkey pubkey hpubkey
  obtain rfl : cose = cose' := Option.some.inj (hcose.symm.trans hcose')
  have hdevice : on.publicKey hsmKey = key := Except.ok.inj (hkey'.symm.trans hdecoded)
  -- The key of the request is the one that was fetched.
  obtain rfl : swPubkey = swCose :=
    Option.some.inj ((decode_trim_hexEncode swPubkey).symm.trans hswCose)
  exact ⟨_, swPubkey, swAuthority, keyAuthority, root, hsw, hswAuthority, hopen on hsmKey hdevice,
    hdoc.provisions _ _ _⟩

/-- Let the key that Tower 1 has of a device, when a keystore is minted and later when a push is
planned, be the public key of the device, and let Tower 2 have the same signer key both times. Let
publish calls to Tower 2 interleave in any way and fail anywhere. The keystore that the command gets
opens on the device, and in it the software authority is the signer key with which a push that has a
job comes; and every job of the push installs with the same private key. -/
theorem provisioned_device_installs (hdoc : identity.hsm.Documented)
    (hfactory : ∀ key, suit.fromCoseKeyBytes identity.hsm.factoryKeyCbor = .ok key →
      identity.ec2.ec2PublicXy key = .ok (coordinates identity.hsm.factorySigningPublic))
    (on : Onboard identity.ec2 identity.off) (hsmKey : on.SecretKey) (recv : Receiver suit)
    (secret : recv.SecretKey) (hsame : on.publicKey hsmKey = recv.publicKey secret)
    (hkey : RosterKey suit identity.roster deviceId (recv.publicKey secret))
    (hkey' : RosterKey suit identity'.roster deviceId (recv.publicKey secret))
    (hsigner : tower'.signerPubkey = tower.signerPubkey)
    (hempty : ∀ env, suit.decodeEnvelope [] ≠ .ok env)
    (hsha : CiphersCollisionFree codec sha calls) (schedule : List (Sys.Turn storeOps ι))
    (hserved : ServedFrom tower'
      (schedule.foldl (Sys.next contentStore) (startPublishing codec sha calls)))
    (call : MintCall suit) (envelope : Bytes)
    (hmint : mintKeystoreCmd identity sha (tower.hub sha order) call deviceId = .ok envelope)
    (jobs : List FlashJob) (trustAnchor : Bytes) (observed : Tree)
    (hplan : l1FlashPlan suit rig (identity'.getDevice sha) (tower'.hub sha order) target deviceId
      only = .ok (jobs, trustAnchor, observed)) :
    (∃ ks swAuthority keyAuthority root,
      on.openKeystore identity.hsm sha hsmKey identity.hsm.factorySigningPublic envelope =
        some ks ∧
      ks.Provisions identity.hsm swAuthority keyAuthority 1
        (identity.roster.certOf deviceId "tls-identity") root ∧
      (jobs ≠ [] → identity.ec2.coseToSec1 trustAnchor = .ok swAuthority)) ∧
    ∃ v tree, target.selector.release tower'.server.committed = some v ∧
      resolve order tower'.server.committed.releases v = .ok tree ∧
      ∀ job ∈ jobs, ∃ des, tree.get? job.componentId = some des ∧
        InstallsAs codec sha recv secret des job := by
  constructor
  · obtain ⟨ks, swPubkey, swAuthority, keyAuthority, root, hsw, hswAuthority, hopen, hprovisions⟩ :=
      openKeystore_of_mintKeystoreCmd hdoc hfactory on hsmKey (hsame ▸ hkey) hmint
    refine ⟨ks, swAuthority, keyAuthority, root, hopen, hprovisions, fun hjobs => ?_⟩
    -- Both calls have fetched the signer key.
    have hanchor := (trustAnchor_of_l1FlashPlan hplan).resolve_left hjobs
    obtain ⟨-, rfl⟩ := Tower.getSignerPubkey_eq_ok_iff.mp hanchor
    obtain ⟨-, rfl⟩ := Tower.getSignerPubkey_eq_ok_iff.mp hsw
    rw [hsigner]
    exact hswAuthority
  · obtain ⟨-, recipient, tree, response, hof⟩ := of_l1FlashPlan_eq_ok hempty hplan
    have hrecipient : suit.fromCoseKeyBytes recipient.devicePubkey =
        .ok (recv.publicKey secret) := by
      obtain ⟨pubkey, hdevice, hdecoded⟩ := hof.key
      obtain ⟨cose, hcose, hdevice⟩ := hkey' pubkey (pubkeyOf_of_devicePubkey hdevice)
      rw [decodeDevicePubkey, hcose] at hdecoded
      simp only [hdevice] at hdecoded
      cases hdecoded
      exact hdevice
    obtain ⟨v, hrelease, hv, hjobs⟩ := hof.installsAs recv hrecipient hsha schedule hserved
    exact ⟨v, tree, hrelease, hv, hjobs⟩

end Provision

/-! ## A device that is provisioned -/

instance : DecidableEq Suit.framedKeys.EncInfo :=
  inferInstanceAs (DecidableEq Bytes)

/-- The device of the push is registered with its key. -/
def provisioningSteps : List (Request × Faults) :=
  [(.register ⟨"device-1", none, some "a1b2"⟩, [])]

/-- Then it gets a model, and another device is registered. -/
def laterSteps : List (Request × Faults) :=
  [(.register ⟨"device-1", some "gen2", none⟩, []), (.register ⟨"device-2", none, none⟩, [])]

/-- Tower 1 after some requests. -/
def sampleIdentity (steps : List (Request × Faults)) : Identity Suit.framedKeys where
  hsm := sampleHsm none [0x30]
  ec2 := sampleEc2 Suit.framedKeys
  off := sampleOffboard Suit.framedKeys sampleSha []
  state := ⟨.ok authorityKey, .ok [0x30]⟩
  roster := (steps.foldl (IdentityTower.Tower.next sampleCa) .empty).roster
  collate a b := a ≤ b
  faults := []
  clientError := fun _ => "error sending request"

/-- The keystore of the device, minted before the content of the push is published. -/
def sampleKeystoreCmd : Except Error Bytes :=
  mintKeystoreCmd (sampleIdentity provisioningSteps) sampleSha (earlyTower.hub sampleSha .insertion)
    ⟨.ok (), 0⟩ "device-1"

/-- The push. -/
def provisionedPlan : Except PlanError (List FlashJob × Bytes × Tree) :=
  l1FlashPlan Suit.framedKeys (.ok (vehicleWith oldKernel))
    ((sampleIdentity (provisioningSteps ++ laterSteps)).getDevice sampleSha)
    (pushedTower.hub sampleSha .insertion) rolloutTarget "device-1" none

/-- The roster has the key at both times. -/
theorem rosterKey_sampleIdentity {steps : List (Request × Faults)}
    (hsteps : steps = provisioningSteps ∨ steps = provisioningSteps ++ laterSteps) :
    RosterKey Suit.framedKeys (sampleIdentity steps).roster "device-1"
      (framedReceiver.publicKey ()) := by
  have hpubkey : (sampleIdentity steps).roster.pubkeyOf "device-1" = some "a1b2" := by
    rcases hsteps with rfl | rfl <;> decide +kernel
  rw [RosterKey, hpubkey]
  rintro _ ⟨⟩
  exact ⟨[0xa1, 0xb2], by decide +kernel, rfl⟩

/-- The device finds the signer key in its keystore, and the kernel of the push installs. -/
theorem provisioned_device_installs_kernel :
    ∃ envelope jobs trustAnchor observed, sampleKeystoreCmd = .ok envelope ∧
      provisionedPlan = .ok (jobs, trustAnchor, observed) ∧ jobs.map (·.componentId) = ["vm1"] ∧
      (∃ ks slot, (sampleOnboard Suit.framedKeys sampleSha []).openKeystore (sampleHsm none [0x30])
        sampleSha () sampleKey envelope = some ks ∧ slot ∈ ks.slots ∧
          slot.keyId = "sw-authority" ∧ slot.anchorPublicKey =
            ((sampleEc2 Suit.framedKeys).coseToSec1 trustAnchor).toOption.map (·.toList)) ∧
      ∃ tree : Tree, ∀ job ∈ jobs, ∃ des, tree.get? job.componentId = some des ∧
        InstallsAs sampleCodec sampleSha framedReceiver () des job := by
  have hcmd : sampleKeystoreCmd = .ok [0xD8] := by decide +kernel
  have hnames : (provisionedPlan.map fun plan => plan.1.map (·.componentId)) = .ok ["vm1"] := by
    decide +kernel
  have hsigner : pushedTower.signerPubkey = earlyTower.signerPubkey := rfl
  obtain ⟨⟨jobs, trustAnchor, observed⟩, hplan, hjobs⟩ := Except.map_eq_ok_iff.mp hnames
  obtain ⟨⟨ks, swAuthority, keyAuthority, root, hks, hprovisions, hanchor⟩, v, tree, -, -,
      hinstalls⟩ :=
    provisioned_device_installs (documented_sampleHsm none [0x30]) (fun _ _ => rfl)
      (sampleOnboard Suit.framedKeys sampleSha []) () framedReceiver () rfl
      (rosterKey_sampleIdentity (.inl rfl)) (rosterKey_sampleIdentity (.inr rfl)) hsigner
      (by rintro env ⟨⟩) ciphersCollisionFree_sample pushedSchedule servedFrom_pushedTower _ _ hcmd
      jobs trustAnchor observed hplan
  have hne : jobs ≠ [] := by
    rintro rfl
    cases hjobs
  have hslot : "sw-authority" ∈ ks.slots.map (·.keyId) := by
    rw [hprovisions.roles]
    exact List.mem_map_of_mem (mem_mandatoryRoles_sampleHsm none [0x30] .softwareAuthority)
  obtain ⟨slot, hslot, hid⟩ := List.mem_map.mp hslot
  refine ⟨_, jobs, trustAnchor, observed, hcmd, hplan, hjobs, ⟨ks, slot, hks, hslot, hid, ?_⟩, tree,
    hinstalls⟩
  rw [hprovisions.software slot hslot hid]
  exact congrArg (fun point => point.toOption.map (·.toList)) (hanchor hne).symm

end Cli
