import SumoProvision.IdentityTower.Roster
import SumoProvision.Foundations.Text

/-!
# Keystores

Tower 1 mints the keystore of a device: the slots for its keys, the public keys that it trusts, the
leaf of its `tls-identity` key, and the root that it pins. The keystore is encrypted to the key that
the roster has for the device, and signed with the factory key that is known to everyone.

The schema of a keystore and the toolkit that encrypts and signs come from other crates (`hsm`,
`sumo_offboard`, `sumo_onboard`) and are the parameters `Hsm`, `Offboard` and `Onboard`.
`keystore_opens` says which keystore the device that has this key finds in the envelope.
-/

namespace IdentityTower

open Wire SoftwareTower

/-! ## The schema -/

/-- The kind of a key. -/
inductive KeyType where
  | ecP256
  | aes256
  deriving DecidableEq

/-- What a slot can be used for. -/
inductive KeyOp where
  | sign
  | verify
  | encrypt
  | decrypt
  | getPubkey
  deriving DecidableEq

/-- A key slot. Only an anchor has a key in it; the HSM generates the others. -/
structure KeySlot where
  keyId : String
  keyKind : KeyType
  anchorPublicKey : Option Bytes
  allowedGuests : Option (List String)
  allowedOps : Option (List KeyOp)
  deriving DecidableEq

/-- The signed leaf of a key slot. -/
structure LeafCert where
  keyId : String
  certificate : Bytes
  deriving DecidableEq

/-- A foreign root that the device pins. -/
structure TrustAnchorCert where
  anchorId : String
  certificate : Bytes
  deriving DecidableEq

/-- The keystore of an HSM. -/
structure HsmKeystore where
  schemaVersion : ℕ
  securityVersion : UInt64
  slots : List KeySlot
  certificates : List LeafCert
  trustAnchors : List TrustAnchorCert
  deriving DecidableEq

/-- What the decoder of the device accepts: no two slots have one id, a symmetric slot has no key in
it, and a leaf belongs to a slot. -/
structure HsmKeystore.Valid (ks : HsmKeystore) : Prop where
  slots_nodup : (ks.slots.map (·.keyId)).Nodup
  symmetric : ∀ slot ∈ ks.slots, slot.keyKind = .aes256 → slot.anchorPublicKey = none
  leaf_slot : ∀ c ∈ ks.certificates, c.keyId ∈ ks.slots.map (·.keyId)

/-- The key roles and the encoding of keystores. -/
structure Hsm where
  KeyRole : Type
  decEq : DecidableEq KeyRole
  mandatoryRoles : List KeyRole
  softwareAuthority : KeyRole
  factoryResetIssuer : KeyRole
  tlsIdentity : KeyRole
  deviceDecryption : KeyRole
  isDeviceGenerated : KeyRole → Bool
  keyType : KeyRole → KeyType
  keyId : KeyRole → String
  schemaVersion : ℕ
  delegationRootAnchorId : String
  factorySigningPublic : Vector UInt8 65
  factorySigningScalar : Vector UInt8 32
  encode : HsmKeystore → Except String Bytes
  decode : Bytes → Except String HsmKeystore

instance (hsm : Hsm) : DecidableEq hsm.KeyRole :=
  hsm.decEq

/-- What is relied on: the roles and their ids are distinct, the authority for software is an
anchor and the TLS identity a slot of its own, symmetric keys are generated on the device, and a
valid keystore is decoded as it was. -/
structure Hsm.Documented (hsm : Hsm) : Prop where
  keyIds_nodup : (hsm.mandatoryRoles.map hsm.keyId).Nodup
  software_ne_factory : hsm.softwareAuthority ≠ hsm.factoryResetIssuer
  software_mandatory : hsm.softwareAuthority ∈ hsm.mandatoryRoles
  software_anchor : hsm.isDeviceGenerated hsm.softwareAuthority = false
  tls_mandatory : hsm.tlsIdentity ∈ hsm.mandatoryRoles
  symmetric_generated : ∀ role ∈ hsm.mandatoryRoles, hsm.keyType role = .aes256 →
    hsm.isDeviceGenerated role = true
  decode_encode : ∀ ks bytes, ks.Valid → hsm.encode ks = .ok bytes → hsm.decode bytes = .ok ks

/-! ## The toolkit -/

/-- An image manifest with one integrated payload. -/
structure ImageManifest (EncInfo : Type) where
  signingTime : ℕ
  componentId : List String
  sequenceNumber : UInt64
  securityVersion : UInt64
  payloadDigest : Bytes
  payloadSize : ℕ
  payloadUri : String
  encryptionInfo : EncInfo
  integratedPayload : String × Bytes
  textVersion : String
  textVendorName : String
  textModelName : String
  textDescription : String
  deriving DecidableEq

/-- What compresses, encrypts and signs a keystore. -/
structure Offboard (suit : Suit) where
  compressFirmware : Bytes → ℤ → Except String Bytes
  /-- Encrypt under a fresh key that is wrapped to the recipients with the key of the sender. -/
  encryptFirmwareEcdh : Bytes → suit.Key → List (Recipient suit.Key) →
    Except String (suit.EncInfo × Bytes)
  /-- `ImageManifestBuilder::build`. -/
  build : suit.Key → ImageManifest suit.EncInfo → Except String Bytes

/-- The device: what verifies, decrypts and decompresses an envelope, with the laws that it gets
back what went in. -/
structure Onboard {suit : Suit} (ec2 : Ec2 suit) (off : Offboard suit) where
  SecretKey : Type
  publicKey : SecretKey → suit.Key
  /-- The manifest of an envelope, if its signature verifies under a point. -/
  verify : Vector UInt8 65 → Bytes → Option (ImageManifest suit.EncInfo)
  decrypt : SecretKey → suit.EncInfo → Bytes → Option Bytes
  decompress : Bytes → Option Bytes
  verify_build : ∀ {key point manifest bytes}, ec2.ec2PublicXy key = .ok (coordinates point) →
    off.build key manifest = .ok bytes → verify point bytes = some manifest
  decrypt_encrypt : ∀ {plain sender recipients info cipher secret kid},
    off.encryptFirmwareEcdh plain sender recipients = .ok (info, cipher) →
      ⟨publicKey secret, kid⟩ ∈ recipients → decrypt secret info cipher = some plain
  decompress_compress : ∀ {plain level bytes}, off.compressFirmware plain level = .ok bytes →
    decompress bytes = some plain

/-! ## Minting -/

/-- The error of a mint. -/
inductive MintError where
  | badRequest (message : String)
  | internal (e : InternalError)
  deriving DecidableEq

/-- `POST /admin/devices/{id}/keystore` body. -/
structure MintKeystoreReq where
  swAuthorityPubkey : String
  securityVersion : UInt64 := 1
  deriving DecidableEq

/-- What Tower 1 has of its CAs: the point of the key authority and the delegation root. -/
structure MintState where
  keyAuthoritySec1 : Except String (Vector UInt8 65)
  delegationRootDer : Except String Bytes

/-- What a call gets from outside: the ephemeral key of the sender, and the time. -/
structure MintCall (suit : Suit) where
  ephemeral : Except String suit.Key
  now : ℕ

section Mint

variable (hsm : Hsm)

/-- The public key of a slot that is an anchor. -/
def Hsm.anchorPublicKey (swAuthoritySec1 keyAuthorityPubSec1 : Vector UInt8 65)
    (role : hsm.KeyRole) : Option Bytes :=
  if hsm.isDeviceGenerated role then none
  else if role = hsm.softwareAuthority then some swAuthoritySec1.toList
  else if role = hsm.factoryResetIssuer then some hsm.factorySigningPublic.toList
  else some keyAuthorityPubSec1.toList

/-- The slot of a role. -/
def Hsm.keySlot (swAuthoritySec1 keyAuthorityPubSec1 : Vector UInt8 65) (role : hsm.KeyRole) :
    KeySlot :=
  let anchorPublicKey := hsm.anchorPublicKey swAuthoritySec1 keyAuthorityPubSec1 role
  let isAes := hsm.keyType role = .aes256
  { keyId := hsm.keyId role
    keyKind := if isAes then .aes256 else .ecP256
    anchorPublicKey
    allowedGuests := none
    allowedOps :=
      if anchorPublicKey.isSome then some [.verify, .getPubkey]
      else if isAes then some [.encrypt, .decrypt]
      else some [.sign, .verify, .getPubkey] }

/-- The keystore: a slot for each mandatory role, the leaf if there is one, and the pinned root. -/
def Hsm.assembleKeystore (swAuthoritySec1 keyAuthorityPubSec1 : Vector UInt8 65)
    (securityVersion : UInt64) (tlsIdentityLeaf : Option Bytes) (delegationRootDer : Bytes) :
    HsmKeystore where
  schemaVersion := hsm.schemaVersion
  securityVersion
  slots := hsm.mandatoryRoles.map (hsm.keySlot swAuthoritySec1 keyAuthorityPubSec1)
  certificates := tlsIdentityLeaf.toList.map fun leaf => ⟨hsm.keyId hsm.tlsIdentity, leaf⟩
  trustAnchors := [⟨hsm.delegationRootAnchorId, delegationRootDer⟩]

/-- The encoding of the factory key: a private COSE key for ES256 on P-256. -/
def Hsm.factoryKeyCbor : Bytes :=
  let (x, y) := coordinates hsm.factorySigningPublic
  [0xA6, 0x01, 0x02, 0x03, 0x26, 0x20, 0x01, 0x21, 0x58, 0x20] ++ x.toList ++
    [0x22, 0x58, 0x20] ++ y.toList ++ [0x23, 0x58, 0x20] ++ hsm.factorySigningScalar.toList

variable {suit : Suit} (ec2 : Ec2 suit) (off : Offboard suit) (sha : Sha256)

/-- The factory key, which verifies only the first install. -/
def Hsm.factorySigningKey (suit : Suit) : Except String suit.Key :=
  (suit.fromCoseKeyBytes hsm.factoryKeyCbor).mapError fun e => s!"re-import factory key: {e}"

/-- Mint the keystore of a device as a signed and encrypted envelope. -/
def mintKeystore (call : MintCall suit) (deviceDecryptCose swAuthorityCose : Bytes)
    (keyAuthorityPubSec1 : Vector UInt8 65) (securityVersion : UInt64)
    (tlsIdentityLeaf : Option Bytes) (delegationRootDer : Bytes) : Except String Bytes := do
  let swAuthoritySec1 ← ec2.coseToSec1 swAuthorityCose
  let keystore := hsm.assembleKeystore swAuthoritySec1 keyAuthorityPubSec1 securityVersion
    tlsIdentityLeaf delegationRootDer
  let cbor ← (hsm.encode keystore).mapError fun e => s!"encode HSM keystore: {e}"
  let plaintextDigest := (sha ⟨cbor.toArray⟩).bytes.toList
  let compressed ← (off.compressFirmware cbor 3).mapError fun e => s!"compress: {e}"
  let publicKey ← (suit.fromCoseKeyBytes deviceDecryptCose).mapError fun e =>
    s!"device decrypt key is not a COSE_Key: {e}"
  let recipient := ⟨publicKey, Text.utf8 (hsm.keyId hsm.deviceDecryption)⟩
  let ephemeral ← call.ephemeral.mapError fun e => s!"ephemeral sender key: {e}"
  let (encryptionInfo, ciphertext) ← (off.encryptFirmwareEcdh compressed ephemeral
    [recipient]).mapError fun e => s!"ECDH-encrypt keystore: {e}"
  let factoryKey ← hsm.factorySigningKey suit
  (off.build factoryKey
    { signingTime := call.now
      componentId := ["hsm", "keys"]
      sequenceNumber := securityVersion
      securityVersion
      payloadDigest := plaintextDigest
      payloadSize := cbor.length
      payloadUri := "#hsm-keys"
      encryptionInfo
      integratedPayload := ("#hsm-keys", ciphertext)
      textVersion := s!"{securityVersion}.0.0"
      textVendorName := "sumo-provision"
      textModelName := "HSM-Keys"
      textDescription := "HSM trust-anchor keystore" }).mapError fun e =>
    s!"build/sign keystore envelope: {e}"

/-- `hex::decode` of a text without the blanks around it. -/
def decodeHex (text what : String) : Except MintError Bytes :=
  match Hex.decode (Text.trim text).toList with
  | some bytes => .ok bytes
  | none => .error (.badRequest s!"{what} is not hex")

/-- `POST /admin/devices/{id}/keystore`. -/
def mintKeystoreEndpoint (s : MintState) (call : MintCall suit) (id : String)
    (req : MintKeystoreReq) : Prog rosterReadSql MintError Bytes := do
  let internal (e : String) : MintError := .internal (.other e)
  let row ← Prog.perform (S := rosterReadSql) (.selectPubkey id) fun e => .internal (.sql e)
  match row.join with
  | none => .ret (.error (.failed (.badRequest
      s!"device '{id}' has no registered pubkey — register/enroll it first")))
  | some pubkeyHex =>
    let deviceDecryptCose ← Prog.lift (decodeHex pubkeyHex "device pubkey")
    let swAuthorityCose ← Prog.lift (decodeHex req.swAuthorityPubkey "sw_authority_pubkey")
    let kaSec1 ← Prog.lift (s.keyAuthoritySec1.mapError internal)
    let delegationRootDer ← Prog.lift (s.delegationRootDer.mapError internal)
    let tlsLeaf ← Prog.perform (S := rosterReadSql) (.selectCert id "tls-identity") fun e =>
      .internal (.sql e)
    Prog.lift ((mintKeystore hsm ec2 off sha call deviceDecryptCose swAuthorityCose kaSec1
      req.securityVersion tlsLeaf delegationRootDer).mapError internal)

end Mint

/-! ## What the device finds -/

/-- What a keystore is to provision: the version, a slot for each role with a key in it only if it
is an anchor, the software authority, the factory key for the one who may reset, the key authority
for every other anchor, the leaf of the TLS identity, and the pinned root. -/
structure HsmKeystore.Provisions (ks : HsmKeystore) (hsm : Hsm) (swAuthority keyAuthority :
    Vector UInt8 65) (securityVersion : UInt64) (leaf : Option Bytes) (root : Bytes) : Prop where
  version : ks.securityVersion = securityVersion
  roles : ks.slots.map (·.keyId) = hsm.mandatoryRoles.map hsm.keyId
  generated : ∀ role ∈ hsm.mandatoryRoles, hsm.isDeviceGenerated role = true →
    ∀ slot ∈ ks.slots, slot.keyId = hsm.keyId role → slot.anchorPublicKey = none
  anchors : ∀ slot ∈ ks.slots, ∀ key ∈ slot.anchorPublicKey, key = swAuthority.toList ∨
    key = keyAuthority.toList ∨ key = hsm.factorySigningPublic.toList
  software : ∀ slot ∈ ks.slots, slot.keyId = hsm.keyId hsm.softwareAuthority →
    slot.anchorPublicKey = some swAuthority.toList
  factoryReset : hsm.factoryResetIssuer ∈ hsm.mandatoryRoles →
    hsm.isDeviceGenerated hsm.factoryResetIssuer = false →
    ∀ slot ∈ ks.slots, slot.keyId = hsm.keyId hsm.factoryResetIssuer →
      slot.anchorPublicKey = some hsm.factorySigningPublic.toList
  authority : ∀ role ∈ hsm.mandatoryRoles, hsm.isDeviceGenerated role = false →
    role ≠ hsm.softwareAuthority → role ≠ hsm.factoryResetIssuer →
    ∀ slot ∈ ks.slots, slot.keyId = hsm.keyId role →
      slot.anchorPublicKey = some keyAuthority.toList
  certificates : ks.certificates = leaf.toList.map fun der => ⟨hsm.keyId hsm.tlsIdentity, der⟩
  trustAnchors : ks.trustAnchors = [⟨hsm.delegationRootAnchorId, root⟩]

section Assemble

variable {hsm : Hsm} {swAuthority keyAuthority : Vector UInt8 65}

@[simp] theorem Hsm.keyId_keySlot (role : hsm.KeyRole) :
    (hsm.keySlot swAuthority keyAuthority role).keyId = hsm.keyId role := rfl

@[simp] theorem Hsm.anchorPublicKey_keySlot (role : hsm.KeyRole) :
    (hsm.keySlot swAuthority keyAuthority role).anchorPublicKey =
      hsm.anchorPublicKey swAuthority keyAuthority role := rfl

/-- The slots of an assembled keystore have the ids of the mandatory roles. -/
theorem Hsm.map_keyId_slots (version : UInt64) (leaf : Option Bytes) (root : Bytes) :
    (hsm.assembleKeystore swAuthority keyAuthority version leaf root).slots.map (·.keyId) =
      hsm.mandatoryRoles.map hsm.keyId := by
  simp [assembleKeystore]

theorem Hsm.anchorPublicKey_of_generated {role : hsm.KeyRole}
    (h : hsm.isDeviceGenerated role = true) :
    hsm.anchorPublicKey swAuthority keyAuthority role = none :=
  if_pos h

/-- Two mandatory roles with one id are one role. -/
theorem Hsm.Documented.eq_of_keyId (hdoc : hsm.Documented) {role role' : hsm.KeyRole}
    (hrole : role ∈ hsm.mandatoryRoles) (hrole' : role' ∈ hsm.mandatoryRoles)
    (h : hsm.keyId role = hsm.keyId role') : role = role' :=
  List.inj_on_of_nodup_map hdoc.keyIds_nodup hrole hrole' h

/-- The decoder of the device accepts an assembled keystore. -/
theorem Hsm.Documented.valid (hdoc : hsm.Documented) (version : UInt64) (leaf : Option Bytes)
    (root : Bytes) : (hsm.assembleKeystore swAuthority keyAuthority version leaf root).Valid where
  slots_nodup := by
    rw [map_keyId_slots]
    exact hdoc.keyIds_nodup
  symmetric := by
    rintro _ hslot haes
    obtain ⟨role, hrole, rfl⟩ := List.mem_map.mp hslot
    have htype : hsm.keyType role = .aes256 := by
      by_contra hne
      simp [keySlot, hne] at haes
    exact anchorPublicKey_of_generated (hdoc.symmetric_generated role hrole htype)
  leaf_slot := by
    rintro _ hleaf
    obtain ⟨der, -, rfl⟩ := List.mem_map.mp hleaf
    rw [map_keyId_slots]
    exact List.mem_map_of_mem hdoc.tls_mandatory

/-- And it provisions what the tower has. -/
theorem Hsm.Documented.provisions (hdoc : hsm.Documented) (version : UInt64) (leaf : Option Bytes)
    (root : Bytes) :
    (hsm.assembleKeystore swAuthority keyAuthority version leaf root).Provisions hsm swAuthority
      keyAuthority version leaf root := by
  -- The slot with the id of a role is the slot of this role.
  have hslots : ∀ role ∈ hsm.mandatoryRoles,
      ∀ slot ∈ (hsm.assembleKeystore swAuthority keyAuthority version leaf root).slots,
        slot.keyId = hsm.keyId role →
          slot.anchorPublicKey = hsm.anchorPublicKey swAuthority keyAuthority role := by
    rintro role hrole _ hslot hid
    obtain ⟨role', hrole', rfl⟩ := List.mem_map.mp hslot
    rw [anchorPublicKey_keySlot, hdoc.eq_of_keyId hrole' hrole hid]
  refine ⟨rfl, map_keyId_slots version leaf root, ?generated, ?anchors, ?software, ?factoryReset,
    ?authority, rfl, rfl⟩
  case generated =>
    intro role hrole hgenerated slot hslot hid
    rw [hslots role hrole slot hslot hid, anchorPublicKey_of_generated hgenerated]
  case anchors =>
    rintro _ hslot key hkey
    obtain ⟨role, -, rfl⟩ := List.mem_map.mp hslot
    rw [anchorPublicKey_keySlot, anchorPublicKey] at hkey
    grind
  case software =>
    intro slot hslot hid
    rw [hslots _ hdoc.software_mandatory slot hslot hid, anchorPublicKey, hdoc.software_anchor]
    simp
  case factoryReset =>
    intro hrole hanchor slot hslot hid
    rw [hslots _ hrole slot hslot hid, anchorPublicKey, hanchor]
    simp [hdoc.software_ne_factory.symm]
  case authority =>
    intro role hrole hanchor hsoftware hfactory slot hslot hid
    rw [hslots role hrole slot hslot hid, anchorPublicKey, hanchor]
    simp [hsoftware, hfactory]

end Assemble

/-- Open a keystore envelope on the device: verify it under the key that the device trusts, decrypt
and decompress the payload, compare it with the digest and the size, and decode it. -/
def Onboard.openKeystore {suit : Suit} {ec2 : Ec2 suit} {off : Offboard suit}
    (on : Onboard ec2 off) (hsm : Hsm) (sha : Sha256) (secret : on.SecretKey)
    (trusted : Vector UInt8 65) (envelope : Bytes) : Option HsmKeystore := do
  let manifest ← on.verify trusted envelope
  let compressed ← on.decrypt secret manifest.encryptionInfo manifest.integratedPayload.2
  let cbor ← on.decompress compressed
  if manifest.payloadUri = manifest.integratedPayload.1 ∧
      manifest.payloadDigest = (sha ⟨cbor.toArray⟩).bytes.toList ∧
      manifest.payloadSize = cbor.length then
    (hsm.decode cbor).toOption
  else none

section Open

variable {hsm : Hsm} {suit : Suit} {ec2 : Ec2 suit} {off : Offboard suit} {sha : Sha256}

/-- A minted envelope opens for the key that it was minted for. -/
theorem openKeystore_of_mintKeystore (hdoc : hsm.Documented)
    (hfactory : ∀ key, suit.fromCoseKeyBytes hsm.factoryKeyCbor = .ok key →
      ec2.ec2PublicXy key = .ok (coordinates hsm.factorySigningPublic))
    {call : MintCall suit} {deviceCose swCose envelope : Bytes} {keyAuthority : Vector UInt8 65}
    {version : UInt64} {leaf : Option Bytes} {root : Bytes}
    (h : mintKeystore hsm ec2 off sha call deviceCose swCose keyAuthority version leaf root =
      .ok envelope) :
    ∃ swAuthority key, ec2.coseToSec1 swCose = .ok swAuthority ∧
      suit.fromCoseKeyBytes deviceCose = .ok key ∧
      ∀ (on : Onboard ec2 off) secret, on.publicKey secret = key →
        on.openKeystore hsm sha secret hsm.factorySigningPublic envelope =
          some (hsm.assembleKeystore swAuthority keyAuthority version leaf root) := by
  obtain ⟨swAuthority, hsw, h⟩ := Except.bind_eq_ok_iff.mp h
  obtain ⟨cbor, hcbor, h⟩ := Except.bind_eq_ok_iff.mp h
  obtain ⟨compressed, hcompressed, h⟩ := Except.bind_eq_ok_iff.mp h
  obtain ⟨key, hkey, h⟩ := Except.bind_eq_ok_iff.mp h
  obtain ⟨ephemeral, -, h⟩ := Except.bind_eq_ok_iff.mp h
  obtain ⟨⟨info, ciphertext⟩, hencrypted, h⟩ := Except.bind_eq_ok_iff.mp h
  obtain ⟨factoryKey, hfactoryKey, hbuild⟩ := Except.bind_eq_ok_iff.mp h
  rw [Except.mapError_eq_ok_iff] at hcbor hcompressed hkey hencrypted hbuild
  rw [Hsm.factorySigningKey, Except.mapError_eq_ok_iff] at hfactoryKey
  refine ⟨swAuthority, key, hsw, hkey, ?_⟩
  rintro on secret rfl
  -- The device undoes the steps of the mint in the opposite order.
  have hverify := on.verify_build (hfactory factoryKey hfactoryKey) hbuild
  have hdecrypt : on.decrypt secret info ciphertext = some compressed :=
    on.decrypt_encrypt hencrypted List.mem_cons_self
  have hdecompress := on.decompress_compress hcompressed
  have hdecode := hdoc.decode_encode _ cbor (hdoc.valid version leaf root) hcbor
  rw [Onboard.openKeystore, hverify]
  simp [hdecrypt, hdecompress, hdecode, Except.toOption]

variable {collate : String → String → Bool} {x : Roster} {faults : Faults}

theorem eq_of_decodeHex {text what : String} {bytes : Bytes}
    (h : decodeHex text what = .ok bytes) : Hex.decode (Text.trim text).toList = some bytes := by
  unfold decodeHex at h
  split at h
  · cases h
    assumption
  · cases h

/-- The key column that is read. -/
theorem of_selectPubkey {ε : Type} {onErr : SqlError → ε} {id : String} {rest : Faults}
    {row : Option (Option String)} {y : Roster}
    (h : (Prog.perform (S := rosterReadSql) (.selectPubkey id) onErr).run (rosterReadDb collate)
      faults x = (.ok row, rest, y)) : row.join = x.pubkeyOf id ∧ x = y := by
  obtain ⟨-, -, hexec⟩ := Prog.run_perform_eq_ok_iff.mp h
  dsimp only [rosterReadDb] at hexec
  split at hexec
  · cases hexec
    refine ⟨?_, rfl⟩
    rw [Roster.pubkeyOf]
    cases x.find id <;> rfl
  · cases hexec

/-- The certificate that is read. -/
theorem of_selectCert {ε : Type} {onErr : SqlError → ε} {id keyId : String} {rest : Faults}
    {cert : Option Bytes} {y : Roster}
    (h : (Prog.perform (S := rosterReadSql) (.selectCert id keyId) onErr).run
      (rosterReadDb collate) faults x = (.ok cert, rest, y)) :
    x.certOf id keyId = cert ∧ x = y := by
  obtain ⟨-, -, hexec⟩ := Prog.run_perform_eq_ok_iff.mp h
  dsimp only [rosterReadDb] at hexec
  split at hexec
  · cases hexec
    exact ⟨rfl, rfl⟩
  · cases hexec

/-- A mint that succeeds has read the key of the device and its leaf from the roster. -/
theorem run_mintKeystoreEndpoint_of_ok {s : MintState} {call : MintCall suit} {id : String}
    {req : MintKeystoreReq} {envelope : Bytes}
    (h : ((mintKeystoreEndpoint hsm ec2 off sha s call id req).run (rosterReadDb collate) faults
      x).1 = .ok envelope) :
    ∃ pubkey deviceCose swCose keyAuthority root, x.pubkeyOf id = some pubkey ∧
      Hex.decode (Text.trim pubkey).toList = some deviceCose ∧
      Hex.decode (Text.trim req.swAuthorityPubkey).toList = some swCose ∧
      s.keyAuthoritySec1 = .ok keyAuthority ∧ s.delegationRootDer = .ok root ∧
      mintKeystore hsm ec2 off sha call deviceCose swCose keyAuthority req.securityVersion
        (x.certOf id "tls-identity") root = .ok envelope := by
  rcases hrun : (mintKeystoreEndpoint hsm ec2 off sha s call id req).run (rosterReadDb collate)
    faults x with ⟨e | _, rest, y⟩
  · rw [hrun] at h
    cases h
  rw [hrun] at h
  cases h
  obtain ⟨row, _, _, hrow, hrun⟩ := Prog.run_bind_eq_ok_iff.mp hrun
  obtain ⟨hpubkey, rfl⟩ := of_selectPubkey hrow
  cases hjoin : row.join with
  | none =>
    rw [hjoin] at hrun
    cases hrun
  | some pubkey =>
    rw [hjoin] at hrun
    obtain ⟨deviceCose, hdevice, hrun⟩ := Prog.run_lift_bind_eq_ok_iff.mp hrun
    obtain ⟨swCose, hsw, hrun⟩ := Prog.run_lift_bind_eq_ok_iff.mp hrun
    obtain ⟨keyAuthority, hka, hrun⟩ := Prog.run_lift_bind_eq_ok_iff.mp hrun
    obtain ⟨root, hroot, hrun⟩ := Prog.run_lift_bind_eq_ok_iff.mp hrun
    obtain ⟨leaf, _, _, hleaf, hlast⟩ := Prog.run_bind_eq_ok_iff.mp hrun
    obtain ⟨hcert, rfl⟩ := of_selectCert hleaf
    obtain ⟨hmint, -, -⟩ := Prog.run_lift_eq_ok_iff.mp hlast
    rw [Except.mapError_eq_ok_iff] at hka hroot hmint
    rw [← hcert] at hmint
    exact ⟨pubkey, deviceCose, swCose, keyAuthority, root, hpubkey ▸ hjoin, eq_of_decodeHex hdevice,
      eq_of_decodeHex hsw, hka, hroot, hmint⟩

/-- Let no reply of the database be lost in a sequence of requests, and let Tower 1 then mint a
keystore for a device. A key was recorded for the device, and the keystore is for the one that was
recorded last: the device that has it verifies the envelope under the factory key, opens it, and
finds the software authority of the request, the pinned root, and the leaf that was issued last for
its TLS identity. A slot has a key in it only if it is an anchor. -/
theorem keystore_opens (hdoc : hsm.Documented)
    (hfactory : ∀ key, suit.fromCoseKeyBytes hsm.factoryKeyCbor = .ok key →
      ec2.ec2PublicXy key = .ok (coordinates hsm.factorySigningPublic))
    (ca : Ca) (steps : List (Request × Faults)) (hsteps : ∀ step ∈ steps, Answered step)
    (s : MintState) (call : MintCall suit) (id : String) (req : MintKeystoreReq) (envelope : Bytes)
    (hmint : ((mintKeystoreEndpoint hsm ec2 off sha s call id req).run (rosterReadDb collate) faults
      (steps.foldl (Tower.next ca) .empty).roster).1 = .ok envelope) :
    ∃ pubkey cose key swCose swAuthority keyAuthority root,
      Tower.lastRecorded ca id steps = some pubkey ∧
      Hex.decode (Text.trim pubkey).toList = some cose ∧ suit.fromCoseKeyBytes cose = .ok key ∧
      Hex.decode (Text.trim req.swAuthorityPubkey).toList = some swCose ∧
      ec2.coseToSec1 swCose = .ok swAuthority ∧ s.keyAuthoritySec1 = .ok keyAuthority ∧
      s.delegationRootDer = .ok root ∧
      ∀ (on : Onboard ec2 off) secret, on.publicKey secret = key → ∃ ks,
        on.openKeystore hsm sha secret hsm.factorySigningPublic envelope = some ks ∧
        ks.Provisions hsm swAuthority keyAuthority req.securityVersion
          (Tower.lastIssued ca id "tls-identity" steps) root := by
  obtain ⟨pubkey, cose, swCose, keyAuthority, root, hpubkey, hcose, hswCose, hka, hroot, hminted⟩ :=
    run_mintKeystoreEndpoint_of_ok hmint
  rw [pubkeyOf_foldl_next hsteps] at hpubkey
  rw [certOf_foldl_next hsteps] at hminted
  obtain ⟨swAuthority, key, hsw, hkey, hopen⟩ := openKeystore_of_mintKeystore hdoc hfactory hminted
  refine ⟨pubkey, cose, key, swCose, swAuthority, keyAuthority, root, hpubkey, hcose, hkey, hswCose,
    hsw, hka, hroot, fun on secret hsecret => ?_⟩
  exact ⟨_, hopen on secret hsecret, hdoc.provisions _ _ _⟩

end Open

/-! ## A keystore that opens -/

/-- The roles of the sample. -/
inductive SampleRole where
  | softwareAuthority
  | keyAuthority
  | factoryResetIssuer
  | tlsIdentity
  | deviceDecryption
  | storage
  deriving DecidableEq

/-- A schema with these roles that encodes one keystore. -/
def sampleSchema (known : Option HsmKeystore) : Hsm where
  KeyRole := SampleRole
  decEq := inferInstance
  mandatoryRoles := [.softwareAuthority, .keyAuthority, .factoryResetIssuer, .tlsIdentity,
    .deviceDecryption, .storage]
  softwareAuthority := .softwareAuthority
  factoryResetIssuer := .factoryResetIssuer
  tlsIdentity := .tlsIdentity
  deviceDecryption := .deviceDecryption
  isDeviceGenerated role := role = .tlsIdentity ∨ role = .deviceDecryption ∨ role = .storage
  keyType role := if role = .storage then .aes256 else .ecP256
  keyId
    | .softwareAuthority => "sw-authority"
    | .keyAuthority => "key-authority"
    | .factoryResetIssuer => "factory-reset-issuer"
    | .tlsIdentity => "tls-identity"
    | .deviceDecryption => "device-decrypt"
    | .storage => "storage-key"
  schemaVersion := 3
  delegationRootAnchorId := "delegation-root"
  factorySigningPublic := sampleKey
  factorySigningScalar := .replicate 32 1
  encode ks := if some ks = known then .ok [0xA6] else .error "unknown keystore"
  decode bytes := if bytes = [0xA6] then known.elim (.error "unknown keystore") .ok
    else .error "not a keystore"

/-- The point of the key authority. -/
def authorityKey : Vector UInt8 65 :=
  ⟨(4 :: List.replicate 64 1).toArray, by decide⟩

/-- A keystore of the sample, with the leaf of its device. -/
def sampleKeystore (leaf : Option Bytes) (root : Bytes) : HsmKeystore :=
  (sampleSchema none).assembleKeystore sampleKey authorityKey 1 leaf root

/-- The schema that encodes it. -/
def sampleHsm (leaf : Option Bytes) (root : Bytes) : Hsm :=
  sampleSchema (some (sampleKeystore leaf root))

/-- Every role of the sample is mandatory. -/
theorem mem_mandatoryRoles_sampleHsm (leaf : Option Bytes) (root : Bytes) (role : SampleRole) :
    role ∈ (sampleHsm leaf root).mandatoryRoles := by
  have hroles : role ∈ [SampleRole.softwareAuthority, .keyAuthority, .factoryResetIssuer,
      .tlsIdentity, .deviceDecryption, .storage] := by
    cases role <;> decide
  exact hroles

theorem documented_sampleHsm (leaf : Option Bytes) (root : Bytes) :
    (sampleHsm leaf root).Documented where
  -- The roles are those of the schema, whatever keystore it encodes.
  keyIds_nodup := by
    show ((sampleSchema none).mandatoryRoles.map (sampleSchema none).keyId).Nodup
    decide
  software_ne_factory := by
    show SampleRole.softwareAuthority ≠ .factoryResetIssuer
    decide
  software_mandatory := mem_mandatoryRoles_sampleHsm leaf root .softwareAuthority
  software_anchor := rfl
  tls_mandatory := mem_mandatoryRoles_sampleHsm leaf root .tlsIdentity
  symmetric_generated := by
    show ∀ role ∈ (sampleSchema none).mandatoryRoles, (sampleSchema none).keyType role = .aes256 →
      (sampleSchema none).isDeviceGenerated role = true
    decide
  decode_encode ks bytes _ h := by
    simp only [sampleHsm, sampleSchema] at h
    split at h
    · rename_i hks
      cases h
      cases hks
      rfl
    · cases h

/-- The manifest of the sample, for a payload that is neither compressed nor encrypted. -/
def sampleManifest {EncInfo : Type} (sha : Sha256) (info : EncInfo) : ImageManifest EncInfo where
  signingTime := 0
  componentId := ["hsm", "keys"]
  sequenceNumber := 1
  securityVersion := 1
  payloadDigest := (sha ⟨#[0xA6]⟩).bytes.toList
  payloadSize := 1
  payloadUri := "#hsm-keys"
  encryptionInfo := info
  integratedPayload := ("#hsm-keys", [0xA6])
  textVersion := s!"{(1 : UInt64)}.0.0"
  textVendorName := "sumo-provision"
  textModelName := "HSM-Keys"
  textDescription := "HSM trust-anchor keystore"

section Sample

variable (suit : Suit) (sha : Sha256) (info : suit.EncInfo) [DecidableEq suit.EncInfo]

/-- A toolkit that builds this manifest. -/
def sampleOffboard : Offboard suit where
  compressFirmware bytes _ := .ok bytes
  encryptFirmwareEcdh plain _ _ := .ok (info, plain)
  build _ manifest :=
    if manifest = sampleManifest sha info then .ok [0xD8] else .error "unknown manifest"

/-- The device for it. -/
def sampleOnboard : Onboard (sampleEc2 suit) (sampleOffboard suit sha info) where
  SecretKey := suit.Key
  publicKey := id
  verify point envelope :=
    if coordinates point = coordinates sampleKey ∧ envelope = [0xD8] then
      some (sampleManifest sha info)
    else none
  decrypt _ _ cipher := some cipher
  decompress := some
  verify_build := by
    intro key point manifest bytes hkey hbuild
    simp only [sampleOffboard] at hbuild
    split at hbuild
    · rename_i hmanifest
      cases hbuild
      have hpoint : coordinates point = coordinates sampleKey := (Except.ok.inj hkey).symm
      rw [if_pos ⟨hpoint, rfl⟩, hmanifest]
    · cases hbuild
  decrypt_encrypt := by
    rintro plain _ _ _ _ _ _ ⟨⟩ -
    rfl
  decompress_compress := by
    rintro plain _ _ ⟨⟩
    rfl

end Sample

instance : DecidableEq Suit.framed.EncInfo :=
  inferInstanceAs (DecidableEq Unit)

/-- A CA that issues one leaf. -/
def leafCa : Ca :=
  { sampleCa with
    issueLeaf := fun _ csr _ =>
      if csr = [1] then .ok ⟨[0x30, 0x31], "leaf", "01", "2028-04-05T00:00:00Z",
        "sha256:938db8c9f82c8cb58d3f3ef4fd250036a48d26a712753d2fde5abd03a85cabf4"⟩
      else .error "CSR self-signature (proof-of-possession) failed" }

/-- A device is registered with its key, and enrolls its TLS identity. -/
def keystoreSteps : List (Request × Faults) :=
  [(.register ⟨"rig-1", none, some "a1"⟩, []), (.enroll "rig-1" "tls-identity" [1], [])]

/-- The call of the sample. -/
def sampleMint : Except (Stop MintError) Bytes :=
  ((mintKeystoreEndpoint (sampleHsm (some [0x30, 0x31]) [0x30]) (sampleEc2 Suit.framed)
    (sampleOffboard Suit.framed (.ofDigests []) ()) (.ofDigests []) ⟨.ok authorityKey, .ok [0x30]⟩
    ⟨.ok (), 0⟩ "rig-1" ⟨"b2", 1⟩).run
      (rosterReadDb (· ≤ ·)) [] (keystoreSteps.foldl (Tower.next leafCa) .empty).roster).1

theorem sampleMint_eq : sampleMint = .ok [0xD8] := by
  decide +kernel

/-- The keystore of the sample opens on its device, with its leaf. -/
theorem keystore_opens_rig :
    sampleMint = .ok [0xD8] ∧ Tower.lastRecorded leafCa "rig-1" keystoreSteps = some "a1" ∧
      ∃ ks, (sampleOnboard Suit.framed (.ofDigests []) ()).openKeystore
        (sampleHsm (some [0x30, 0x31]) [0x30]) (.ofDigests []) () sampleKey [0xD8] = some ks ∧
        ks.certificates = [⟨"tls-identity", [0x30, 0x31]⟩] ∧
        ks.trustAnchors = [⟨"delegation-root", [0x30]⟩] := by
  have hsteps : ∀ step ∈ keystoreSteps, Answered step := by simp [keystoreSteps, Answered]
  have hleaf : Tower.lastIssued leafCa "rig-1" "tls-identity" keystoreSteps =
      some [0x30, 0x31] := by
    decide +kernel
  obtain ⟨_, _, _, _, _, _, root, hpubkey, _, _, _, _, _, hroot, hopen⟩ :=
    keystore_opens (documented_sampleHsm _ _) (fun _ _ => rfl) leafCa keystoreSteps hsteps _ _ _ _
      _ sampleMint_eq
  obtain ⟨ks, hks, hprovisions⟩ := hopen (sampleOnboard Suit.framed (.ofDigests []) ()) () rfl
  cases hroot
  rw [hleaf] at hprovisions
  exact ⟨sampleMint_eq, by decide +kernel, ks, hks, hprovisions.certificates,
    hprovisions.trustAnchors⟩

end IdentityTower
