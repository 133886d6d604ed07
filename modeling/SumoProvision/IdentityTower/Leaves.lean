import SumoProvision.Foundations.Rfc4514
import SumoProvision.IdentityTower.Devices

/-!
# Issued leaves

`Ca::issue_leaf` verifies a certificate signing request and issues a leaf certificate for a device.
The subject of the leaf is parsed from the text `CN=` with the device id behind it, and the id comes
from the path of the request as it is.

The parser and the certificate builder are functions of the `x509-cert` crate and fields of `X509`;
`X509.ParsesNames` and `X509.Documented` say what is relied on. The subject names the device exactly
where the id is plain text for the parser (`leaf_bound_iff`), and so does every certificate that the
roster stores (`stored_leaves_bound`). Any other id that is accepted gives a leaf with further
attributes, or with the common name of another id.
-/

namespace IdentityTower

open Wire Rfc4514

/-! ## Certificates -/

/-- An object identifier by its arcs. -/
abbrev Oid := List ℕ

/-- The type of the attribute `CN`. -/
def commonName : Oid := [2, 5, 4, 3]

/-- A subject public key with its algorithm, encoded, and the bytes of the key if it consists of
whole bytes. -/
structure SubjectPublicKeyInfo where
  der : Bytes
  subjectPublicKey : Option Bytes

/-- The signed part of a certificate signing request. -/
structure CertReqInfo where
  subject : Name Oid
  publicKey : SubjectPublicKeyInfo

/-- A certificate signing request, with its signature if that consists of whole bytes. -/
structure SigningRequest where
  info : CertReqInfo
  signature : Option Bytes

/-- What a key may be used for in TLS. -/
inductive KeyPurpose where
  | clientAuth
  | serverAuth
  deriving DecidableEq

/-- The extensions that issuing a leaf adds. -/
inductive Extension where
  | extendedKeyUsage (purposes : List KeyPurpose)
  | subjectAltName (dnsNames : List String)
  deriving DecidableEq

/-- A point in time, in UTC. -/
structure DateTime where
  year : ℕ
  month : ℕ
  day : ℕ
  hour : ℕ
  minutes : ℕ
  seconds : ℕ

/-- When a certificate is valid. -/
structure Validity where
  notBefore : DateTime
  notAfter : DateTime

/-- The part of a certificate that is signed. -/
structure TbsCertificate where
  issuer : Name Oid
  serialNumber : Bytes
  validity : Validity
  subject : Name Oid
  publicKey : SubjectPublicKeyInfo
  extensions : List Extension

/-- A certificate. -/
structure Certificate where
  tbs : TbsCertificate
  signature : Bytes

/-- The functions of the certificate and signature crates. A builder is the certificate that it has
put together so far. -/
structure X509 where
  /-- The object identifier of an attribute type, by its short name or its arcs. -/
  typeOf : String → Option Oid
  /-- The tag of a string value of an attribute. -/
  stringTag : Oid → UInt8
  nameFromStr : String → Except String (Name Oid)
  requestFromDer : Bytes → Except String SigningRequest
  requestFromPem : Bytes → Except String SigningRequest
  infoToDer : CertReqInfo → Except String Bytes
  verifyingKey : Bytes → Option Bytes
  derSignature : Bytes → Except String Bytes
  /-- The signature of a message under a key. -/
  verify : Bytes → Bytes → Bytes → Bool
  serialNumber : Bytes → Except String Bytes
  /-- The validity from now on, for so many seconds. -/
  validityFromNow : ℕ → Except String Validity
  ia5String : String → Except String String
  newBuilder : Bytes → TbsCertificate → Except String TbsCertificate
  addExtension : TbsCertificate → Extension → Except String TbsCertificate
  /-- Sign with a key. -/
  build : Bytes → TbsCertificate → Except String Certificate
  toDer : Certificate → Except String Bytes
  toPem : Certificate → Except String String

/-- The name parser gives for the text only a name that this may stand for. -/
def X509.ParsesName (x : X509) (s : String) : Prop :=
  ∀ name, x.nameFromStr s = .ok name → Reads x.typeOf x.stringTag s name

/-- What is relied on of the name parser: it follows RFC 4514 in what separates and what is escaped,
for every text that it accepts. -/
structure X509.ParsesNames (x : X509) : Prop where
  typeOf_commonName : x.typeOf "CN" = some commonName
  reads : ∀ s, x.ParsesName s

/-- What is relied on of the certificate builder: it keeps the subject that it is given. -/
structure X509.Documented (x : X509) : Prop where
  subject_newBuilder : ∀ key tbs tbs', x.newBuilder key tbs = .ok tbs' → tbs'.subject = tbs.subject
  subject_addExtension : ∀ tbs ext tbs', x.addExtension tbs ext = .ok tbs' →
    tbs'.subject = tbs.subject
  subject_build : ∀ key tbs cert, x.build key tbs = .ok cert → cert.tbs.subject = tbs.subject

/-! ## Issuing a leaf -/

/-- A CA: the key it signs with, and its name. -/
structure Issuer where
  signingKey : Bytes
  issuer : Name Oid

/-- How long a leaf is valid, in seconds. -/
def leafValidity : ℕ := 825 * 24 * 3600

section Issue

variable (x : X509)

/-- Parse a signing request, DER or else PEM, and verify that its sender holds the key. -/
def parseAndVerifyCsr (bytes : Bytes) : Except String SigningRequest := do
  let csr ← match x.requestFromDer bytes with
    | .ok csr => .ok csr
    | .error _ => x.requestFromPem bytes
  let infoDer ← x.infoToDer csr.info
  let key ← match x.verifyingKey csr.info.publicKey.der with
    | some key => .ok key
    | none => .error "CSR public key is not a P-256 key"
  let signature ← match csr.signature with
    | some signature => x.derSignature signature
    | none => .error "CSR signature is not octet-aligned"
  if x.verify key infoDer signature then return csr
  else .error "CSR self-signature (proof-of-possession) failed"

/-- A positive serial number from twenty random bytes. -/
def randomSerial (draw : Vector UInt8 20) : Except String Bytes :=
  x.serialNumber (draw.set 0 ((draw.get 0 &&& 0x7f) ||| 0x01)).toList

/-- What a leaf may be used for. -/
def LeafUsage.purposes : LeafUsage → List KeyPurpose
  | .client => [.clientAuth]
  | .mtls => [.clientAuth, .serverAuth]

/-- The names of the node in its mTLS certificate: its id, and its host name for discovery. -/
def addSubjectAltName (deviceId : String) (tbs : TbsCertificate) : LeafUsage →
    Except String TbsCertificate
  | .client => .ok tbs
  | .mtls => do
    let sanId ← x.ia5String deviceId
    let sanLocal ← x.ia5String (deviceId ++ ".local")
    x.addExtension tbs (.subjectAltName [sanId, sanLocal])

/-- The leaf that `issue_leaf` builds, with the serial number that was drawn for it. -/
def leafCertificate (ca : Issuer) (draw : Vector UInt8 20) (deviceId : String) (csrBytes : Bytes)
    (usage : LeafUsage) : Except String (Certificate × Bytes) := do
  let csr ← parseAndVerifyCsr x csrBytes
  let subject ← x.nameFromStr ("CN=" ++ deviceId)
  let serial ← randomSerial x draw
  let validity ← x.validityFromNow leafValidity
  let builder ← x.newBuilder ca.signingKey
    { issuer := ca.issuer, serialNumber := serial, validity, subject,
      publicKey := csr.info.publicKey, extensions := [] }
  let builder ← x.addExtension builder (.extendedKeyUsage usage.purposes)
  let builder ← addSubjectAltName x deviceId builder usage
  let cert ← x.build ca.signingKey builder
  return (cert, serial)

/-- A number in decimal with leading zeros. -/
def padded (width n : ℕ) : String :=
  String.ofList (List.leftpad width '0' (toString n).toList)

/-- Format a time as RFC 3339. -/
def fmtRfc3339 (t : DateTime) : String :=
  s!"{padded 4 t.year}-{padded 2 t.month}-{padded 2 t.day}" ++
    s!"T{padded 2 t.hour}:{padded 2 t.minutes}:{padded 2 t.seconds}Z"

/-- `Ca::issue_leaf`. -/
def issueLeaf (sha : Sha256) (ca : Issuer) (draw : Vector UInt8 20) (deviceId : String)
    (csrBytes : Bytes) (usage : LeafUsage) : Except String IssuedCert := do
  let (cert, serial) ← leafCertificate x ca draw deviceId csrBytes usage
  let der ← x.toDer cert
  let pem ← x.toPem cert
  return {
    der, pem
    serialHex := hexEncode serial
    notAfter := fmtRfc3339 cert.tbs.validity.notAfter
    fingerprint := (sha ⟨der.toArray⟩).toPrefixed }

end Issue

/-! ## The subject of a leaf -/

/-- The name with one attribute, a common name that is the device id. -/
def boundName (x : X509) (deviceId : String) : Name Oid :=
  [{⟨commonName, x.stringTag commonName, Text.utf8 deviceId⟩}]

theorem boundName_injective (x : X509) : Function.Injective (boundName x) := by
  intro id id' h
  apply Text.utf8_injective
  simpa [boundName] using h

section

variable {x : X509} {ca : Issuer} {draw : Vector UInt8 20} {deviceId : String} {csr : Bytes}
  {usage : LeafUsage}

theorem subject_addSubjectAltName (hx : x.Documented) {tbs tbs' : TbsCertificate}
    (h : addSubjectAltName x deviceId tbs usage = .ok tbs') : tbs'.subject = tbs.subject := by
  cases usage with
  | client =>
    cases h
    rfl
  | mtls =>
    obtain ⟨sanId, -, h⟩ := Except.bind_eq_ok_iff.mp h
    obtain ⟨sanLocal, -, h⟩ := Except.bind_eq_ok_iff.mp h
    exact hx.subject_addExtension _ _ _ h

/-- What the parser gives for `CN=` and the device id is the common name that is the device id iff
that needs no escape. -/
theorem eq_boundName_iff (hp : x.ParsesNames) {subject : Name Oid}
    (h : x.nameFromStr ("CN=" ++ deviceId) = .ok subject) :
    subject = boundName x deviceId ↔ Plain deviceId := by
  have hkey : TypeName "CN" := by decide
  have hreads : Reads x.typeOf x.stringTag ("CN" ++ "=" ++ deviceId) subject := hp.reads _ _ h
  constructor
  · rintro rfl
    exact hreads.plain hkey
  · intro hid
    obtain ⟨type, htype, rfl⟩ := hreads.exists_of_plain hkey hid
    obtain rfl := Option.some.inj (hp.typeOf_commonName.symm.trans htype)
    rfl

/-- The subject of a leaf is what the parser gives. -/
theorem nameFromStr_of_leafCertificate (hx : x.Documented) {cert : Certificate} {serial : Bytes}
    (h : leafCertificate x ca draw deviceId csr usage = .ok (cert, serial)) :
    x.nameFromStr ("CN=" ++ deviceId) = .ok cert.tbs.subject := by
  obtain ⟨req, -, h⟩ := Except.bind_eq_ok_iff.mp h
  obtain ⟨subject, hsubject, h⟩ := Except.bind_eq_ok_iff.mp h
  obtain ⟨serial', -, h⟩ := Except.bind_eq_ok_iff.mp h
  obtain ⟨validity, -, h⟩ := Except.bind_eq_ok_iff.mp h
  obtain ⟨builder, hnew, h⟩ := Except.bind_eq_ok_iff.mp h
  obtain ⟨withEku, heku, h⟩ := Except.bind_eq_ok_iff.mp h
  obtain ⟨withSan, hsan, h⟩ := Except.bind_eq_ok_iff.mp h
  obtain ⟨cert', hbuild, h⟩ := Except.bind_eq_ok_iff.mp h
  cases h
  -- No step of the builder touches the subject.
  rw [hsubject, hx.subject_build _ _ _ hbuild, subject_addSubjectAltName hx hsan,
    hx.subject_addExtension _ _ _ heku, hx.subject_newBuilder _ _ _ hnew]

/-- A leaf names its device exactly where the device id needs no escape. -/
theorem subject_leafCertificate_iff (hx : x.Documented) (hp : x.ParsesNames) {cert : Certificate}
    {serial : Bytes} (h : leafCertificate x ca draw deviceId csr usage = .ok (cert, serial)) :
    cert.tbs.subject = boundName x deviceId ↔ Plain deviceId :=
  eq_boundName_iff hp (nameFromStr_of_leafCertificate hx h)

/-- An issued certificate is the encoding of the leaf that was built. -/
theorem exists_of_issueLeaf {sha : Sha256} {issued : IssuedCert}
    (h : issueLeaf x sha ca draw deviceId csr usage = .ok issued) :
    ∃ cert serial, leafCertificate x ca draw deviceId csr usage = .ok (cert, serial) ∧
      x.toDer cert = .ok issued.der := by
  obtain ⟨⟨cert, serial⟩, hcert, h⟩ := Except.bind_eq_ok_iff.mp h
  obtain ⟨der, hder, h⟩ := Except.bind_eq_ok_iff.mp h
  obtain ⟨pem, -, h⟩ := Except.bind_eq_ok_iff.mp h
  cases h
  exact ⟨cert, serial, hcert, hder⟩

end

/-- For every device id and signing request for which `issue_leaf` succeeds, the subject of the leaf
has the device id as its only attribute, a common name, iff the id is plain: it has no comma, plus
sign or backslash, and no `#` at its beginning. Different plain ids never get the same subject. -/
theorem leaf_bound_iff {x : X509} (hx : x.Documented) (hp : x.ParsesNames) :
    (∀ sha ca draw id csr usage issued, issueLeaf x sha ca draw id csr usage = .ok issued →
      ∃ cert serial, leafCertificate x ca draw id csr usage = .ok (cert, serial) ∧
        x.toDer cert = .ok issued.der ∧
        (cert.tbs.subject = boundName x id ↔ Plain id)) ∧
    (∀ ca ca' draw draw' id id' csr csr' usage usage' cert cert' serial serial',
      leafCertificate x ca draw id csr usage = .ok (cert, serial) →
      leafCertificate x ca' draw' id' csr' usage' = .ok (cert', serial') →
      Plain id → Plain id' → cert.tbs.subject = cert'.tbs.subject → id = id') := by
  refine ⟨fun sha ca draw id csr usage issued h => ?_, ?_⟩
  · obtain ⟨cert, serial, hcert, hder⟩ := exists_of_issueLeaf h
    exact ⟨cert, serial, hcert, hder, subject_leafCertificate_iff hx hp hcert⟩
  · intro ca ca' draw draw' id id' csr csr' usage usage' cert cert' serial serial' h h' hid hid'
      hsubject
    rw [(subject_leafCertificate_iff hx hp h).mpr hid,
      (subject_leafCertificate_iff hx hp h').mpr hid'] at hsubject
    exact boundName_injective x hsubject

/-! ## The stored certificates -/

/-- The CA of the handlers that signs with this key, where the random bytes of a serial number are
drawn for the request. -/
def Issuer.toCa (x : X509) (sha : Sha256) (ca : Issuer) (draw : Vector UInt8 20) : Ca where
  parseAndVerifyCsr bytes := (parseAndVerifyCsr x bytes).map fun csr =>
    ⟨csr.info.publicKey.subjectPublicKey⟩
  issueLeaf := issueLeaf x sha ca draw

/-- The row stores a leaf of the CA, which names the device of the row iff the id of that is
plain. -/
def StoredLeaf (x : X509) (ca : Issuer) (c : DeviceCert) : Prop :=
  ∃ draw csr usage cert serial,
    leafCertificate x ca draw c.deviceId csr usage = .ok (cert, serial) ∧
    x.toDer cert = .ok c.certDer ∧ (cert.tbs.subject = boundName x c.deviceId ↔ Plain c.deviceId)

/-- After any sequence of requests, each with random bytes of its own, every stored certificate
names the device it is stored for iff the id of that is plain. -/
theorem stored_leaves_bound {x : X509} (hx : x.Documented) (hp : x.ParsesNames) (sha : Sha256)
    (ca : Issuer) (steps : List (Vector UInt8 20 × Request × Faults)) :
    ∀ c ∈ (steps.foldl (fun t step => t.next (ca.toCa x sha step.1) step.2)
      Tower.empty).roster.certs.rows, StoredLeaf x ca c := by
  suffices h : ∀ t : Tower, (∀ c ∈ t.roster.certs.rows, StoredLeaf x ca c) →
      ∀ c ∈ (steps.foldl (fun t step => t.next (ca.toCa x sha step.1) step.2)
        t).roster.certs.rows, StoredLeaf x ca c by
    refine h _ fun c hc => ?_
    simp [Tower.empty, Roster.empty] at hc
  intro t ht
  induction steps generalizing t with
  | nil => exact ht
  | cons step steps ih =>
    refine ih _ (Request.forall_certs_apply ht ?_)
    intro id keyId csr usage issued time _ hissued
    obtain ⟨cert, serial, hcert, hder⟩ := exists_of_issueLeaf hissued
    exact ⟨_, csr, usage, cert, serial, hcert, hder, subject_leafCertificate_iff hx hp hcert⟩

/-! ## Device ids that are not plain -/

/-- The type of the attribute `O`. -/
def organizationName : Oid := [2, 5, 4, 10]

/-- Two attribute types by their short names. -/
def sampleTypeOf (key : String) : Option Oid :=
  if key = "CN" then some commonName else if key = "O" then some organizationName else none

/-- The crates on one valid signing request. -/
def sampleX509 : X509 where
  typeOf := sampleTypeOf
  stringTag _ := 12
  nameFromStr s :=
    match Rfc4514.read sampleTypeOf (fun _ => 12) s with
    | some name => .ok name
    | none => .error "malformed name"
  requestFromDer csr :=
    if csr = [1] then .ok ⟨⟨[], ⟨[2], some (4 :: List.replicate 64 7)⟩⟩, some [3]⟩
    else .error "malformed DER"
  requestFromPem _ := .error "malformed PEM"
  infoToDer _ := .ok [4]
  verifyingKey der := if der = [2] then some (4 :: List.replicate 64 7) else none
  derSignature := .ok
  verify _ message signature := message = [4] ∧ signature = [3]
  serialNumber := .ok
  validityFromNow _ := .ok ⟨⟨2026, 1, 1, 0, 0, 0⟩, ⟨2028, 4, 5, 0, 0, 0⟩⟩
  ia5String s := if s.toList.all fun c => c.toNat < 128 then .ok s else .error "not ASCII"
  newBuilder _ := .ok
  addExtension tbs ext := .ok { tbs with extensions := tbs.extensions ++ [ext] }
  build _ tbs := .ok ⟨tbs, [5]⟩
  toDer cert := .ok (cert.tbs.serialNumber ++ cert.signature)
  toPem cert := .ok (hexEncode (cert.tbs.serialNumber ++ cert.signature))

theorem parsesNames_sampleX509 : sampleX509.ParsesNames where
  typeOf_commonName := rfl
  reads s name h := by
    simp only [sampleX509] at h ⊢
    split at h
    · cases h
      exact reads_of_read ‹_›
    · cases h

theorem documented_sampleX509 : sampleX509.Documented where
  subject_newBuilder key tbs tbs' h := by
    cases h
    rfl
  subject_addExtension tbs ext tbs' h := by
    cases h
    rfl
  subject_build key tbs cert h := by
    cases h
    rfl

/-- A CA. -/
def sampleIssuer : Issuer :=
  ⟨[6], [{⟨organizationName, 12, Text.utf8 "sumo"⟩}, {⟨commonName, 12, Text.utf8 "sumo-ca root"⟩}]⟩

/-- The CA issues a leaf for every device id that the parser accepts. -/
theorem exists_sampleLeaf (sha : Sha256) (draw : Vector UInt8 20) {id : String} {name : Name Oid}
    (h : Rfc4514.read sampleTypeOf (fun _ => 12) ("CN=" ++ id) = some name) :
    ∃ issued cert serial,
      issueLeaf sampleX509 sha sampleIssuer draw id [1] .client = .ok issued ∧
      leafCertificate sampleX509 sampleIssuer draw id [1] .client = .ok (cert, serial) ∧
      cert.tbs.subject = name := by
  have hname : sampleX509.nameFromStr ("CN=" ++ id) = .ok name := by
    simp only [sampleX509, h]
  obtain ⟨cert, serial, hcert, hsubject⟩ : ∃ cert serial,
      leafCertificate sampleX509 sampleIssuer draw id [1] .client = .ok (cert, serial) ∧
      cert.tbs.subject = name := by
    rw [leafCertificate, hname]
    exact ⟨_, _, rfl, rfl⟩
  have hissued : ∃ issued,
      issueLeaf sampleX509 sha sampleIssuer draw id [1] .client = .ok issued := by
    rw [issueLeaf, hcert]
    exact ⟨_, rfl⟩
  obtain ⟨issued, hissued⟩ := hissued
  exact ⟨issued, cert, serial, hissued, hcert, hsubject⟩

/-- The texts of two device ids, read. -/
theorem read_sampleIds :
    Rfc4514.read sampleTypeOf (fun _ => 12) ("CN=" ++ "rig-1") =
        some (boundName sampleX509 "rig-1") ∧
      Rfc4514.read sampleTypeOf (fun _ => 12) ("CN=" ++ "rig-2") =
        some (boundName sampleX509 "rig-2") := by
  decide +kernel

/-- Two devices with plain ids get leaves that name them. -/
theorem leaf_bound_iff_plain_ids :
    ∃ cert cert' serial serial',
      leafCertificate sampleX509 sampleIssuer (.replicate 20 9) "rig-1" [1] .client =
        .ok (cert, serial) ∧
      leafCertificate sampleX509 sampleIssuer (.replicate 20 8) "rig-2" [1] .client =
        .ok (cert', serial') ∧
      cert.tbs.subject = boundName sampleX509 "rig-1" ∧
      cert.tbs.subject ≠ cert'.tbs.subject := by
  have hid : Plain "rig-1" := ⟨by decide, by decide, by decide, by decide⟩
  have hid' : Plain "rig-2" := ⟨by decide, by decide, by decide, by decide⟩
  obtain ⟨issued, -, -, hissued, -⟩ := exists_sampleLeaf (.ofDigests []) (.replicate 20 9)
    read_sampleIds.1
  obtain ⟨issued', -, -, hissued', -⟩ := exists_sampleLeaf (.ofDigests []) (.replicate 20 8)
    read_sampleIds.2
  obtain ⟨hbound, hdistinct⟩ := leaf_bound_iff documented_sampleX509 parsesNames_sampleX509
  obtain ⟨cert, serial, hcert, -, hiff⟩ := hbound _ _ _ _ _ _ _ hissued
  obtain ⟨cert', serial', hcert', -, -⟩ := hbound _ _ _ _ _ _ _ hissued'
  refine ⟨cert, cert', serial, serial', hcert, hcert', hiff.mpr hid, fun hsubject => ?_⟩
  exact absurd (hdistinct _ _ _ _ _ _ _ _ _ _ _ _ _ _ hcert hcert' hid hid' hsubject) (by decide)

/-- A comma in the device id adds an organization to the subject, and an escape gives one device the
subject of another. -/
theorem leaf_not_bound :
    sampleX509.Documented ∧ sampleX509.ParsesNames ∧
    (∃ issued cert serial,
      issueLeaf sampleX509 (.ofDigests []) sampleIssuer (.replicate 20 9) "rig-1,O=fleet" [1]
        .client = .ok issued ∧
      leafCertificate sampleX509 sampleIssuer (.replicate 20 9) "rig-1,O=fleet" [1] .client =
        .ok (cert, serial) ∧
      cert.tbs.subject = [{⟨organizationName, 12, Text.utf8 "fleet"⟩},
        {⟨commonName, 12, Text.utf8 "rig-1"⟩}] ∧
      cert.tbs.subject ≠ boundName sampleX509 "rig-1,O=fleet") ∧
    ∃ issued issued' cert cert' serial serial',
      issueLeaf sampleX509 (.ofDigests []) sampleIssuer (.replicate 20 9) "rig-1" [1] .client =
        .ok issued ∧
      issueLeaf sampleX509 (.ofDigests []) sampleIssuer (.replicate 20 8) "rig\\2d1" [1] .client =
        .ok issued' ∧
      leafCertificate sampleX509 sampleIssuer (.replicate 20 9) "rig-1" [1] .client =
        .ok (cert, serial) ∧
      leafCertificate sampleX509 sampleIssuer (.replicate 20 8) "rig\\2d1" [1] .client =
        .ok (cert', serial') ∧
      cert.tbs.subject = cert'.tbs.subject := by
  have hcomma : Rfc4514.read sampleTypeOf (fun _ => 12) ("CN=" ++ "rig-1,O=fleet") =
      some [{⟨organizationName, 12, Text.utf8 "fleet"⟩},
        {⟨commonName, 12, Text.utf8 "rig-1"⟩}] := by decide +kernel
  have hescape : Rfc4514.read sampleTypeOf (fun _ => 12) ("CN=" ++ "rig\\2d1") =
      some [{⟨commonName, 12, Text.utf8 "rig-1"⟩}] := by decide +kernel
  refine ⟨documented_sampleX509, parsesNames_sampleX509, ?_, ?_⟩
  · obtain ⟨issued, cert, serial, hissued, hcert, hsubject⟩ :=
      exists_sampleLeaf (.ofDigests []) (.replicate 20 9) hcomma
    refine ⟨issued, cert, serial, hissued, hcert, hsubject, fun h => ?_⟩
    -- The name of a bound leaf has one attribute.
    have hlen := congrArg List.length (hsubject.symm.trans h)
    cases hlen
  · obtain ⟨issued, cert, serial, hissued, hcert, hsubject⟩ :=
      exists_sampleLeaf (.ofDigests []) (.replicate 20 9) read_sampleIds.1
    obtain ⟨issued', cert', serial', hissued', hcert', hsubject'⟩ :=
      exists_sampleLeaf (.ofDigests []) (.replicate 20 8) hescape
    exact ⟨issued, issued', cert, cert', serial, serial', hissued, hissued', hcert, hcert',
      hsubject.trans hsubject'.symm⟩

end IdentityTower
