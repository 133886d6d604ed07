import SumoProvision.Foundations.Files
import SumoProvision.IdentityTower.Keystore
import SumoProvision.IdentityTower.Leaves

/-!
# The roots of the tower

Tower 1 has three CAs: the key authority, the identity root and the delegation root. Each has a key
file and a certificate file. At every start the tower loads a CA from its files or, if one of them
is missing, generates it and writes both, the certificate last.

A start can be killed or fail at any operation, and leave a part of a file. It never loses a CA
whose files are complete, and comes up only with CAs that the files have (`run_startup`); without
faults it comes up unless there is a certificate file that cannot be read (`run_startup_nil`).
-/

namespace IdentityTower

open Wire Rfc4514

/-! ## Definitions -/

/-- The DN of the key authority, which signs HSM key material. -/
def keyAuthorityRootDn : String := "CN=sumo-ca root,O=sumo"

/-- The DN of the identity root, which signs the TLS leaves of devices. -/
def identityRootDn : String := "CN=sumo identity root,O=sumo"

/-- The DN of the delegation root, which signs delegated grants. -/
def delegationRootDn : String := "CN=sumo delegation root,O=sumo"

/-- How long a root is valid, in seconds. -/
def rootValidity : ℕ := 10 * 365 * 24 * 3600

/-- The mode of a key file. -/
def keyFileMode : ℕ := 0o600

/-- The functions of the crates for keys and root certificates. -/
structure RootCrates where
  /-- The public key of a signing key. -/
  publicKey : Bytes → Except String SubjectPublicKeyInfo
  /-- `CertificateBuilder::new` with the profile of a root. -/
  newRoot : Bytes → TbsCertificate → Except String TbsCertificate
  keyToPkcs8 : Bytes → Except String Bytes
  keyFromPkcs8 : Bytes → Except String Bytes
  certFromDer : Bytes → Except String Certificate
  /-- The bytes that the signature of a certificate is made over. -/
  tbsToDer : TbsCertificate → Bytes

/-- A CA: the key it signs with, its name, and its root certificate. -/
structure Authority extends Issuer where
  cert : Certificate

/-- What a start gets from outside for a CA: a random key, random bytes for the serial number, and
the clock. -/
structure RootDraw where
  signingKey : Bytes
  serial : Vector UInt8 20
  validityFromNow : ℕ → Except String Validity

/-- The CAs by what they sign for. -/
inductive Root where
  | keyAuthority
  | identity
  | delegation
  deriving DecidableEq

/-- The DN of a CA. -/
def Root.dn : Root → String
  | .keyAuthority => keyAuthorityRootDn
  | .identity => identityRootDn
  | .delegation => delegationRootDn

/-- What a start gets for the three CAs. -/
structure RootDraws where
  keyAuthority : RootDraw
  identity : RootDraw
  delegation : RootDraw

/-- What a start gets for a CA. -/
def RootDraws.draw (draws : RootDraws) : Root → RootDraw
  | .keyAuthority => draws.keyAuthority
  | .identity => draws.identity
  | .delegation => draws.delegation

/-- The files of the three CAs. -/
structure Args where
  caKey : String
  caCert : String
  identityKey : String
  identityCert : String
  delegationKey : String
  delegationCert : String

/-- The key file of a CA. -/
def Args.key (args : Args) : Root → String
  | .keyAuthority => args.caKey
  | .identity => args.identityKey
  | .delegation => args.delegationKey

/-- The certificate file of a CA. -/
def Args.cert (args : Args) : Root → String
  | .keyAuthority => args.caCert
  | .identity => args.identityCert
  | .delegation => args.delegationCert

/-- The six files are different ones. -/
structure Args.Distinct (args : Args) : Prop where
  key_ne_cert : ∀ i j, args.key i ≠ args.cert j
  key_injective : Function.Injective args.key
  cert_injective : Function.Injective args.cert

/-- The CAs of the running tower. -/
structure AppState where
  keyAuthorityCa : Authority
  identityCa : Authority
  delegationCa : Authority

/-- A CA of the running tower. -/
def AppState.authority (s : AppState) : Root → Authority
  | .keyAuthority => s.keyAuthorityCa
  | .identity => s.identityCa
  | .delegation => s.delegationCa

section Startup

variable (c : X509) (r : RootCrates)

/-- `Ca::generate`. -/
def Authority.generate (draw : RootDraw) (rootDn : String) : Except String Authority := do
  let issuer ← c.nameFromStr rootDn
  let spki ← r.publicKey draw.signingKey
  let serial ← randomSerial c draw.serial
  let validity ← draw.validityFromNow rootValidity
  let builder ← r.newRoot draw.signingKey
    { issuer, serialNumber := serial, validity, subject := issuer, publicKey := spki,
      extensions := [] }
  let cert ← c.build draw.signingKey builder
  return { signingKey := draw.signingKey, issuer, cert }

/-- `Ca::load`. -/
def Authority.load (keyPath certPath : String) : Prog fileOps String Authority := do
  let keyBytes ← readFile FileError.text keyPath
  let signingKey ← .lift (r.keyFromPkcs8 keyBytes)
  let certBytes ← readFile FileError.text certPath
  let cert ← .lift (r.certFromDer certBytes)
  return { signingKey, issuer := cert.tbs.subject, cert }

/-- `Ca::save`. -/
def Authority.save (a : Authority) (keyPath certPath : String) : Prog fileOps String Unit := do
  createParent FileError.text keyPath
  let keyBytes ← .lift (r.keyToPkcs8 a.signingKey)
  writeFile FileError.text keyPath keyBytes
  setPermissions FileError.text keyPath keyFileMode
  let certBytes ← .lift (c.toDer a.cert)
  writeFile FileError.text certPath certBytes

/-- Whether both files of a CA exist; the certificate is looked for only if there is a key. -/
def bothExist (key cert : String) : Prog fileOps String Bool := do
  if ← pathExists key then pathExists cert else return false

/-- Load a CA, or generate it and write its files. -/
def loadOrGenerateCa (draw : RootDraw) (key cert rootDn : String) :
    Prog fileOps String Authority := do
  if ← bothExist key cert then Authority.load r key cert
  else
    let authority ← .lift (Authority.generate c r draw rootDn)
    authority.save c r key cert
    return authority

/-- The part of `main` that sets up the CAs. -/
def startup (args : Args) (draws : RootDraws) : Prog fileOps String AppState := do
  let keyAuthorityCa ← loadOrGenerateCa c r draws.keyAuthority args.caKey args.caCert
    keyAuthorityRootDn
  let identityCa ← loadOrGenerateCa c r draws.identity args.identityKey args.identityCert
    identityRootDn
  let delegationCa ← loadOrGenerateCa c r draws.delegation args.delegationKey args.delegationCert
    delegationRootDn
  return { keyAuthorityCa, identityCa, delegationCa }

/-- `Ca::public_sec1`. -/
def Authority.publicSec1 (a : Authority) : Except String (Vector UInt8 65) := do
  let spki ← r.publicKey a.signingKey
  match spki.subjectPublicKey with
  | none => .error "CA public key is not octet-aligned"
  | some bytes =>
    if h : bytes.length = 65 then return ⟨bytes.toArray, by simpa using h⟩
    else .error "CA public key is not a 65-byte P-256 point"

/-- What minting a keystore gets of the CAs. -/
def AppState.mintState (s : AppState) : MintState where
  keyAuthoritySec1 := s.keyAuthorityCa.publicSec1 r
  delegationRootDer := c.toDer s.delegationCa.cert

end Startup

/-! ## Assumptions -/

/-- What is relied on: keys and certificates are read back from their encodings, and a certificate
not from a part of it; the builder keeps the names and the key that it is given; and what a key has
signed verifies under its public key. -/
structure RootCrates.Documented (c : X509) (r : RootCrates) : Prop where
  keyFromPkcs8_toPkcs8 : ∀ key bytes, r.keyToPkcs8 key = .ok bytes → r.keyFromPkcs8 bytes = .ok key
  certFromDer_toDer : ∀ cert bytes, c.toDer cert = .ok bytes → r.certFromDer bytes = .ok cert
  certFromDer_take : ∀ cert bytes n cert', c.toDer cert = .ok bytes → n < bytes.length →
    r.certFromDer (bytes.take n) ≠ .ok cert'
  subject_newRoot : ∀ key tbs tbs', r.newRoot key tbs = .ok tbs' → tbs'.subject = tbs.subject
  publicKey_newRoot : ∀ key tbs tbs', r.newRoot key tbs = .ok tbs' →
    tbs'.publicKey = tbs.publicKey
  issuer_newBuilder : ∀ key tbs tbs', c.newBuilder key tbs = .ok tbs' → tbs'.issuer = tbs.issuer
  issuer_addExtension : ∀ tbs ext tbs', c.addExtension tbs ext = .ok tbs' →
    tbs'.issuer = tbs.issuer
  issuer_build : ∀ key tbs cert, c.build key tbs = .ok cert → cert.tbs.issuer = tbs.issuer
  publicKey_build : ∀ key tbs cert, c.build key tbs = .ok cert →
    cert.tbs.publicKey = tbs.publicKey
  verify_build : ∀ key tbs cert spki, c.build key tbs = .ok cert → r.publicKey key = .ok spki →
    ∃ point, c.verifyingKey spki.der = some point ∧
      c.verify point (r.tbsToDer cert.tbs) cert.signature = true

/-! ## The files of a root -/

section Files

variable {c : X509} {r : RootCrates} {created : ℕ} {fs : FileSystem} {key cert dn : String}
  {faults : List (Option (Fault FileError))}

/-- A CA as it was generated: its root has its name and its public key. -/
structure Authority.Sound (c : X509) (r : RootCrates) (dn : String) (a : Authority) : Prop where
  issuer : c.nameFromStr dn = .ok a.issuer
  subject : a.cert.tbs.subject = a.issuer
  publicKey : r.publicKey a.signingKey = .ok a.cert.tbs.publicKey

theorem sound_generate (hc : c.Documented) (hr : r.Documented c) {draw : RootDraw} {a : Authority}
    (h : Authority.generate c r draw dn = .ok a) : a.Sound c r dn := by
  simp only [Authority.generate, Except.bind_eq_ok_iff, Except.pure_eq_ok_iff] at h
  obtain ⟨issuer, hissuer, spki, hspki, serial, -, validity, -, tbs, htbs, cert, hcert, rfl⟩ := h
  refine ⟨hissuer, ?_, ?_⟩
  · rw [hc.subject_build _ _ _ hcert, hr.subject_newRoot _ _ _ htbs]
  · rw [hr.publicKey_build _ _ _ hcert, hr.publicKey_newRoot _ _ _ htbs]
    exact hspki

/-- The public key of a CA is the one in its root. -/
theorem Authority.Sound.publicSec1 {a : Authority} (ha : a.Sound c r dn) {sec1 : Vector UInt8 65}
    (h : a.publicSec1 r = .ok sec1) :
    a.cert.tbs.publicKey.subjectPublicKey = some sec1.toList := by
  rw [Authority.publicSec1, ha.publicKey, Except.ok_bind] at h
  split at h
  · cases h
  · rename_i bytes hbytes
    split at h
    · cases h
      rw [hbytes]
      simp
    · cases h

/-- The files have the CA. -/
structure Kept (c : X509) (r : RootCrates) (fs : FileSystem) (key cert dn : String)
    (a : Authority) : Prop where
  key : ∃ bytes, r.keyToPkcs8 a.signingKey = .ok bytes ∧ fs key = some ⟨bytes, keyFileMode⟩
  cert : ∃ bytes mode, c.toDer a.cert = .ok bytes ∧ fs cert = some ⟨bytes, mode⟩
  sound : a.Sound c r dn

/-- The files of a root between two starts: there is no certificate yet, or a CA, or a certificate
that cannot be read. -/
inductive RootFiles (c : X509) (r : RootCrates) (fs : FileSystem) (key cert dn : String) :
    Prop where
  | absent (h : fs cert = none)
  | kept {a : Authority} (h : Kept c r fs key cert dn a)
  | torn {f : File} (hkey : (fs key).isSome) (hcert : fs cert = some f)
      (h : ∀ cert', r.certFromDer f.bytes ≠ .ok cert')

theorem Kept.congr {fs' : FileSystem} {a : Authority} (h : Kept c r fs key cert dn a)
    (hkey : fs' key = fs key) (hcert : fs' cert = fs cert) : Kept c r fs' key cert dn a :=
  ⟨hkey ▸ h.key, hcert ▸ h.cert, h.sound⟩

theorem RootFiles.congr {fs' : FileSystem} (h : RootFiles c r fs key cert dn)
    (hkey : fs' key = fs key) (hcert : fs' cert = fs cert) : RootFiles c r fs' key cert dn := by
  cases h with
  | absent h => exact .absent (hcert.trans h)
  | kept h => exact .kept (h.congr hkey hcert)
  | torn hk hf h => exact .torn (hkey ▸ hk) (hcert.trans hf) h

/-- Both files of a CA are there. -/
theorem Kept.both {a : Authority} (h : Kept c r fs key cert dn a) :
    ((fs key).isSome && (fs cert).isSome) = true := by
  obtain ⟨_, -, hkey⟩ := h.key
  obtain ⟨_, _, -, hcert⟩ := h.cert
  simp [hkey, hcert]

/-- Between two starts there is no certificate without a key. -/
theorem RootFiles.eq_none_of_not_both (h : RootFiles c r fs key cert dn)
    (hboth : ((fs key).isSome && (fs cert).isSome) = false) : fs cert = none := by
  cases h with
  | absent habsent => exact habsent
  | kept hkept => cases hkept.both.symm.trans hboth
  | torn hkey hcert _ => simp [hkey, hcert] at hboth

/-- A CA that is loaded is the one that the files have. -/
theorem Kept.eq_of_load (hr : r.Documented c) {a a' : Authority} (h : Kept c r fs key cert dn a)
    {keyFile certFile : File} (hkey : fs key = some keyFile) (hcert : fs cert = some certFile)
    (hkey' : r.keyFromPkcs8 keyFile.bytes = .ok a'.signingKey)
    (hcert' : r.certFromDer certFile.bytes = .ok a'.cert)
    (hissuer : a'.issuer = a'.cert.tbs.subject) : a' = a := by
  obtain ⟨keyBytes, hkeyBytes, hkeyFile⟩ := h.key
  obtain ⟨certBytes, mode, hcertBytes, hcertFile⟩ := h.cert
  obtain rfl := Option.some.inj (hkey.symm.trans hkeyFile)
  obtain rfl := Option.some.inj (hcert.symm.trans hcertFile)
  have hsigningKey : a'.signingKey = a.signingKey :=
    Except.ok.inj (hkey'.symm.trans (hr.keyFromPkcs8_toPkcs8 _ _ hkeyBytes))
  have hcertEq : a'.cert = a.cert :=
    Except.ok.inj (hcert'.symm.trans (hr.certFromDer_toDer _ _ hcertBytes))
  have hissuerEq : a'.issuer = a.issuer := by rw [hissuer, hcertEq, h.sound.subject]
  obtain ⟨⟨_, _⟩, _⟩ := a
  obtain ⟨⟨_, _⟩, _⟩ := a'
  simp_all

/-! ### Programs -/

theorem run_bothExist
    (h : Prog.Along (fileSystem created) LooksRight (bothExist key cert) faults fs) :
    ∃ rest, (bothExist key cert).run (fileSystem created) faults fs =
        (.ok ((fs key).isSome && (fs cert).isSome), rest, fs) ∨
      (bothExist key cert).run (fileSystem created) faults fs = (.error .dropped, rest, fs) := by
  obtain ⟨hkey, hcert⟩ := Prog.Along.of_bind h
  rcases FileSystem.run_pathExists hkey with hrun | hrun
  · have hrest := hcert _ _ _ hrun
    rw [bothExist, Prog.run_bind_of_ok hrun]
    cases hfile : (fs key).isSome with
    | false => exact ⟨_, .inl rfl⟩
    | true =>
      rw [hfile] at hrest
      rcases FileSystem.run_pathExists hrest with hrun' | hrun'
      · exact ⟨_, .inl (by simpa using hrun')⟩
      · exact ⟨_, .inr (by simpa using hrun')⟩
  · exact ⟨_, .inr (by rw [bothExist, Prog.run_bind_of_error hrun])⟩

/-- Loading reads both files, and changes none. -/
theorem run_load (created : ℕ) (key cert : String) (faults : List (Option (Fault FileError)))
    (fs : FileSystem) :
    ∃ res rest, (Authority.load r key cert).run (fileSystem created) faults fs = (res, rest, fs) ∧
      ∀ a, res = .ok a → ∃ keyFile certFile, fs key = some keyFile ∧ fs cert = some certFile ∧
        r.keyFromPkcs8 keyFile.bytes = .ok a.signingKey ∧
        r.certFromDer certFile.bytes = .ok a.cert ∧ a.issuer = a.cert.tbs.subject := by
  have hread : ∀ path, (readFile FileError.text path).Issues FileOp.Reads :=
    fun path => Prog.issues_perform (S := fileOps) trivial _
  have hreads : (Authority.load r key cert).Issues FileOp.Reads :=
    (hread key).bind fun _ => Prog.Issues.bind (p := .lift _) trivial fun _ =>
      (hread cert).bind fun _ => Prog.Issues.bind (p := .lift _) trivial fun _ => trivial
  have hsame := FileSystem.run_of_reads created hreads faults fs
  rcases hrun : (Authority.load r key cert).run (fileSystem created) faults fs with ⟨res, rest, fs'⟩
  obtain rfl : fs' = fs := by rwa [hrun] at hsame
  refine ⟨res, rest, rfl, ?_⟩
  rintro a rfl
  obtain ⟨keyBytes, _, _, hkey, hrun⟩ := Prog.run_bind_eq_ok_iff.mp hrun
  obtain ⟨signingKey, hsigningKey, hrun⟩ := Prog.run_lift_bind_eq_ok_iff.mp hrun
  obtain ⟨certBytes, _, _, hcert, hrun⟩ := Prog.run_bind_eq_ok_iff.mp hrun
  obtain ⟨cert', hcert', hrun⟩ := Prog.run_lift_bind_eq_ok_iff.mp hrun
  cases hrun
  obtain ⟨rfl, keyFile, hkeyFile, rfl⟩ := FileSystem.of_run_readFile_eq_ok hkey
  obtain ⟨-, certFile, hcertFile, rfl⟩ := FileSystem.of_run_readFile_eq_ok hcert
  exact ⟨keyFile, certFile, hkeyFile, hcertFile, hsigningKey, hcert', rfl⟩

/-- What saving a CA leaves: the certificate as it was, or the key file and the certificate or a
part of it. -/
inductive Saved (c : X509) (r : RootCrates) (a : Authority) (fs fs' : FileSystem)
    (key cert : String) : Prop where
  | unwritten (h : fs' cert = fs cert)
  | written {keyBytes certBytes : Bytes} {mode : ℕ} (n : ℕ)
      (hkeyBytes : r.keyToPkcs8 a.signingKey = .ok keyBytes)
      (hkey : fs' key = some ⟨keyBytes, keyFileMode⟩)
      (hcertBytes : c.toDer a.cert = .ok certBytes)
      (hcert : fs' cert = some ⟨certBytes.take n, mode⟩)

/-- The key file is written first: the program fails and has changed no other file, or goes on with
the key file in place. -/
theorem run_writeKey_cases (created : ℕ) (key : String) (a : Authority)
    (next : Prog fileOps String Unit) (faults : List (Option (Fault FileError))) (fs : FileSystem) :
    (∃ e rest fs', (createParent FileError.text key >>= fun _ =>
        .lift (r.keyToPkcs8 a.signingKey) >>= fun keyBytes =>
        writeFile FileError.text key keyBytes >>= fun _ =>
        setPermissions FileError.text key keyFileMode >>= fun _ => next).run (fileSystem created)
          faults fs = (.error e, rest, fs') ∧ ∀ path, path ≠ key → fs' path = fs path) ∨
      ∃ keyBytes rest fs', r.keyToPkcs8 a.signingKey = .ok keyBytes ∧
        (createParent FileError.text key >>= fun _ =>
          .lift (r.keyToPkcs8 a.signingKey) >>= fun keyBytes =>
          writeFile FileError.text key keyBytes >>= fun _ =>
          setPermissions FileError.text key keyFileMode >>= fun _ => next).run (fileSystem created)
            faults fs = next.run (fileSystem created) rest fs' ∧
        fs' key = some ⟨keyBytes, keyFileMode⟩ ∧ ∀ path, path ≠ key → fs' path = fs path := by
  -- One operation after the other: where one fails, nothing but the key file has been touched.
  rcases FileSystem.run_createParent_cases FileError.text key faults fs with hrun | ⟨e, hrun⟩
  swap
  · exact .inl ⟨_, _, _, Prog.run_bind_of_error hrun _, fun _ _ => rfl⟩
  rw [Prog.run_bind_of_ok hrun]
  cases hkeyBytes : r.keyToPkcs8 a.signingKey with
  | error e => exact .inl ⟨_, _, _, rfl, fun _ _ => rfl⟩
  | ok keyBytes =>
    rw [Prog.lift_ok_bind]
    rcases FileSystem.run_writeFile_cases FileError.text key keyBytes faults.tail fs with
      hrun | ⟨e, fs', hrun, rfl | ⟨n, rfl⟩⟩
    swap
    · exact .inl ⟨_, _, _, Prog.run_bind_of_error hrun _, fun _ _ => rfl⟩
    swap
    · exact .inl ⟨_, _, _, Prog.run_bind_of_error hrun _, fun _ hne => FileSystem.write_of_ne hne⟩
    rw [Prog.run_bind_of_ok hrun]
    have hframe : ∀ path, path ≠ key →
        (fs.write created key keyBytes).setMode key keyFileMode path = fs path := fun path hne => by
      rw [FileSystem.setMode_of_ne hne, FileSystem.write_of_ne hne]
    -- A mode that could not be set leaves the file with its contents, and the run stops there.
    rcases FileSystem.run_setPermissions_cases FileError.text key keyFileMode faults.tail.tail
      (fs.write created key keyBytes) with hrun | ⟨e, fs', hrun, rfl | rfl⟩
    swap
    · exact .inl ⟨_, _, _, Prog.run_bind_of_error hrun _, fun _ hne => FileSystem.write_of_ne hne⟩
    swap
    · exact .inl ⟨_, _, _, Prog.run_bind_of_error hrun _, hframe⟩
    refine .inr ⟨keyBytes, _, _, rfl, Prog.run_bind_of_ok hrun _, ?_, hframe⟩
    rw [FileSystem.setMode_self, FileSystem.write_self]
    rfl

theorem run_save (created : ℕ) (hne : key ≠ cert) (a : Authority)
    (faults : List (Option (Fault FileError))) (fs : FileSystem) :
    ∃ res rest fs', (a.save c r key cert).run (fileSystem created) faults fs = (res, rest, fs') ∧
      (∀ path, path ≠ key → path ≠ cert → fs' path = fs path) ∧
      Saved c r a fs fs' key cert ∧
      (res = .ok () → ∃ keyBytes certBytes mode, r.keyToPkcs8 a.signingKey = .ok keyBytes ∧
        fs' key = some ⟨keyBytes, keyFileMode⟩ ∧ c.toDer a.cert = .ok certBytes ∧
        fs' cert = some ⟨certBytes, mode⟩) := by
  -- The key file is written first, so there is no certificate file without its key file.
  rcases run_writeKey_cases (r := r) created key a
    (.lift (c.toDer a.cert) >>= fun certBytes => writeFile FileError.text cert certBytes) faults fs
    with ⟨e, rest, fs', hrun, hframe⟩ | ⟨keyBytes, rest, fs₁, hkeyBytes, hrun, hkeyFile, hframe⟩
  · exact ⟨_, _, _, hrun, fun path hkey _ => hframe path hkey, .unwritten (hframe _ hne.symm),
      by simp⟩
  rw [Authority.save, hrun]
  cases hcertBytes : c.toDer a.cert with
  | error e =>
    exact ⟨_, _, _, rfl, fun path hkey _ => hframe path hkey, .unwritten (hframe _ hne.symm),
      by simp⟩
  | ok certBytes =>
    rw [Prog.lift_ok_bind]
    have hframe₁ : ∀ bytes path, path ≠ key → path ≠ cert →
        fs₁.write created cert bytes path = fs path := fun bytes path hkey hcert => by
      rw [FileSystem.write_of_ne hcert, hframe path hkey]
    have hkey₁ : ∀ bytes, fs₁.write created cert bytes key = some ⟨keyBytes, keyFileMode⟩ :=
      fun bytes => by rw [FileSystem.write_of_ne hne, hkeyFile]
    rcases FileSystem.run_writeFile_cases FileError.text cert certBytes rest fs₁ with
      hrun | ⟨e, fs', hrun, rfl | ⟨n, rfl⟩⟩
    · have hwhole : fs₁.write created cert certBytes cert =
          some ⟨certBytes.take certBytes.length, ((fs₁ cert).map (·.mode)).getD created⟩ := by
        rw [List.take_length, FileSystem.write_self]
      exact ⟨_, _, _, hrun, hframe₁ _, .written _ hkeyBytes (hkey₁ _) hcertBytes hwhole,
        fun _ => ⟨keyBytes, certBytes, _, hkeyBytes, hkey₁ _, rfl, FileSystem.write_self⟩⟩
    · exact ⟨_, _, _, hrun, fun path hkey _ => hframe path hkey, .unwritten (hframe _ hne.symm),
        by simp⟩
    · exact ⟨_, _, _, hrun, hframe₁ _, .written n hkeyBytes (hkey₁ _) hcertBytes
        FileSystem.write_self, by simp⟩

/-- What is left of a new CA. -/
theorem Saved.rootFiles (hr : r.Documented c) {a : Authority} {fs' : FileSystem}
    (h : Saved c r a fs fs' key cert) (habsent : fs cert = none) (hsound : a.Sound c r dn) :
    RootFiles c r fs' key cert dn := by
  cases h with
  | unwritten h => exact .absent (h.trans habsent)
  | written n hkeyBytes hkey hcertBytes hcert =>
    rename_i keyBytes certBytes mode
    rcases Nat.lt_or_ge n certBytes.length with hlt | hge
    · have htorn : ∀ cert', r.certFromDer (certBytes.take n) ≠ .ok cert' :=
        fun cert' => hr.certFromDer_take _ _ n cert' hcertBytes hlt
      exact .torn (by rw [hkey]; rfl) hcert htorn
    · rw [List.take_of_length_le hge] at hcert
      exact .kept ⟨⟨keyBytes, hkeyBytes, hkey⟩, ⟨certBytes, mode, hcertBytes, hcert⟩, hsound⟩

/-- What setting up a CA does: other files stay, a CA that is there stays, and one that is returned
is there. -/
structure SetUp (c : X509) (r : RootCrates) (fs fs' : FileSystem) (key cert dn : String)
    (res : Except (Stop String) Authority) : Prop where
  frame : ∀ path, path ≠ key → path ≠ cert → fs' path = fs path
  files : RootFiles c r fs' key cert dn
  kept : ∀ a, Kept c r fs key cert dn a → Kept c r fs' key cert dn a
  result : ∀ a, res = .ok a → Kept c r fs' key cert dn a

/-- A CA that cannot be set up without writing. -/
theorem SetUp.of_error (h : RootFiles c r fs key cert dn) (e : Stop String) :
    SetUp c r fs fs key cert dn (.error e) :=
  ⟨fun _ _ _ => rfl, h, fun _ ha => ha, by simp⟩

theorem setUp_loadOrGenerateCa (hc : c.Documented) (hr : r.Documented c) (hne : key ≠ cert)
    {draw : RootDraw}
    (h : Prog.Along (fileSystem created) LooksRight (loadOrGenerateCa c r draw key cert dn) faults
      fs) (hfiles : RootFiles c r fs key cert dn) :
    ∃ res rest fs', (loadOrGenerateCa c r draw key cert dn).run (fileSystem created) faults fs =
      (res, rest, fs') ∧ SetUp c r fs fs' key cert dn res := by
  obtain ⟨hexist, -⟩ := Prog.Along.of_bind h
  rw [loadOrGenerateCa]
  obtain ⟨rest, hrun | hrun⟩ := run_bothExist hexist
  swap
  · exact ⟨_, _, _, Prog.run_bind_of_error hrun _, .of_error hfiles _⟩
  rw [Prog.run_bind_of_ok hrun]
  cases hboth : (fs key).isSome && (fs cert).isSome with
  | true =>
    -- Both files are there. What loads is the CA that they were saved for; a certificate file that
    -- was cut off does not load.
    obtain ⟨res, rest', hload, hres⟩ := run_load (r := r) created key cert rest fs
    refine ⟨res, rest', fs, hload, fun _ _ _ => rfl, hfiles, fun _ ha => ha, fun a ha => ?_⟩
    obtain ⟨keyFile, certFile, hkey, hcert, hkeyBytes, hcertBytes, hissuer⟩ := hres a ha
    cases hfiles with
    | absent habsent => cases hcert.symm.trans habsent
    | kept hkept =>
      rwa [hkept.eq_of_load hr hkey hcert hkeyBytes hcertBytes hissuer]
    | torn _ hf htorn =>
      obtain rfl := Option.some.inj (hcert.symm.trans hf)
      exact absurd hcertBytes (htorn _)
  | false =>
    -- There is no certificate file, so no CA is lost by generating one.
    have habsent := hfiles.eq_none_of_not_both hboth
    cases hgenerate : Authority.generate c r draw dn with
    | error e => exact ⟨_, _, _, by rw [if_neg (by simp)]; rfl, .of_error hfiles _⟩
    | ok a =>
      have hsound := sound_generate hc hr hgenerate
      obtain ⟨res, rest', fs', hsave, hframe, hsaved, hres⟩ :=
        run_save (c := c) (r := r) created hne a rest fs
      have hfiles' := hsaved.rootFiles hr habsent hsound
      have hnone : ∀ a, ¬ Kept c r fs key cert dn a := fun a ha => by
        obtain ⟨_, _, -, hcert⟩ := ha.cert
        cases hcert.symm.trans habsent
      rw [if_neg (by simp), Prog.lift_ok_bind]
      cases res with
      | error e =>
        exact ⟨_, _, _, Prog.run_bind_of_error hsave _, hframe, hfiles',
          fun a ha => absurd ha (hnone a), by simp⟩
      | ok u =>
        refine ⟨_, _, _, Prog.run_bind_of_ok hsave _, hframe, hfiles',
          fun a ha => absurd ha (hnone a), ?_⟩
        rintro _ ⟨⟩
        obtain ⟨keyBytes, certBytes, mode, hkeyBytes, hkey, hcertBytes, hcert⟩ := hres rfl
        exact ⟨⟨keyBytes, hkeyBytes, hkey⟩, ⟨certBytes, mode, hcertBytes, hcert⟩, hsound⟩

/-- The files of a root have one CA. -/
theorem Kept.unique (hr : r.Documented c) {a a' : Authority} (h : Kept c r fs key cert dn a)
    (h' : Kept c r fs key cert dn a') : a' = a := by
  obtain ⟨keyBytes, hkeyBytes, hkey⟩ := h'.key
  obtain ⟨certBytes, mode, hcertBytes, hcert⟩ := h'.cert
  exact h.eq_of_load hr hkey hcert (hr.keyFromPkcs8_toPkcs8 _ _ hkeyBytes)
    (hr.certFromDer_toDer _ _ hcertBytes) h'.sound.subject.symm

end Files

/-! ## A start -/

section Start

variable {c : X509} {r : RootCrates} {created : ℕ} {args : Args} {fs fs' : FileSystem}

/-- The files of every root between two starts. -/
def AllRoots (c : X509) (r : RootCrates) (args : Args) (fs : FileSystem) : Prop :=
  ∀ i : Root, RootFiles c r fs (args.key i) (args.cert i) i.dn

/-- The files have a CA for the root. -/
abbrev HasRoot (c : X509) (r : RootCrates) (args : Args) (fs : FileSystem) (i : Root)
    (a : Authority) : Prop :=
  Kept c r fs (args.key i) (args.cert i) i.dn a

/-- No CA is lost. -/
structure Progress (c : X509) (r : RootCrates) (args : Args) (fs fs' : FileSystem) : Prop where
  files : AllRoots c r args fs'
  kept : ∀ i a, HasRoot c r args fs i a → HasRoot c r args fs' i a

theorem Progress.trans {fs'' : FileSystem} (h : Progress c r args fs fs')
    (h' : Progress c r args fs' fs'') : Progress c r args fs fs'' :=
  ⟨h'.files, fun i a ha => h'.kept i a (h.kept i a ha)⟩

/-- Setting up one CA leaves the files of the others. -/
theorem SetUp.progress (hargs : args.Distinct) (hfiles : AllRoots c r args fs) {i : Root}
    {res : Except (Stop String) Authority}
    (h : SetUp c r fs fs' (args.key i) (args.cert i) i.dn res) : Progress c r args fs fs' := by
  have hother : ∀ j ≠ i,
      fs' (args.key j) = fs (args.key j) ∧ fs' (args.cert j) = fs (args.cert j) :=
    fun j hj => ⟨h.frame _ (hargs.key_injective.ne hj) (hargs.key_ne_cert j i),
      h.frame _ (hargs.key_ne_cert i j).symm (hargs.cert_injective.ne hj)⟩
  constructor
  · intro j
    by_cases hj : j = i
    · exact hj ▸ h.files
    · exact (hfiles j).congr (hother j hj).1 (hother j hj).2
  · intro j a ha
    by_cases hj : j = i
    · subst hj
      exact h.kept a ha
    · exact ha.congr (hother j hj).1 (hother j hj).2

/-- A start loses no CA, and the tower comes up with those that the files have. -/
theorem run_startup (hc : c.Documented) (hr : r.Documented c) (hargs : args.Distinct)
    {draws : RootDraws} {faults : List (Option (Fault FileError))}
    (h : Prog.Along (fileSystem created) LooksRight (startup c r args draws) faults fs)
    (hfiles : AllRoots c r args fs) :
    ∃ res rest fs', (startup c r args draws).run (fileSystem created) faults fs = (res, rest, fs') ∧
      Progress c r args fs fs' ∧
      ∀ s, res = .ok s → ∀ i, HasRoot c r args fs' i (s.authority i) := by
  have hne : ∀ i, args.key i ≠ args.cert i := fun i => hargs.key_ne_cert i i
  obtain ⟨h₁, hk₁⟩ := Prog.Along.of_bind h
  obtain ⟨res₁, rest₁, fs₁, hrun₁, hset₁⟩ :=
    setUp_loadOrGenerateCa hc hr (hne .keyAuthority) h₁ (hfiles .keyAuthority)
  have hp₁ := hset₁.progress hargs hfiles (i := .keyAuthority)
  cases res₁ with
  | error e => exact ⟨_, _, _, Prog.run_bind_of_error hrun₁ _, hp₁, by simp⟩
  | ok a₁ =>
    obtain ⟨h₂, hk₂⟩ := Prog.Along.of_bind (hk₁ _ _ _ hrun₁)
    obtain ⟨res₂, rest₂, fs₂, hrun₂, hset₂⟩ :=
      setUp_loadOrGenerateCa hc hr (hne .identity) h₂ (hp₁.files .identity)
    have hp₂ := hset₂.progress hargs hp₁.files (i := .identity)
    cases res₂ with
    | error e =>
      exact ⟨_, _, _, (Prog.run_bind_of_ok hrun₁ _).trans (Prog.run_bind_of_error hrun₂ _),
        hp₁.trans hp₂, by simp⟩
    | ok a₂ =>
      obtain ⟨h₃, -⟩ := Prog.Along.of_bind (hk₂ _ _ _ hrun₂)
      obtain ⟨res₃, rest₃, fs₃, hrun₃, hset₃⟩ :=
        setUp_loadOrGenerateCa hc hr (hne .delegation) h₃ (hp₂.files .delegation)
      have hp₃ := hset₃.progress hargs hp₂.files (i := .delegation)
      have hp := (hp₁.trans hp₂).trans hp₃
      cases res₃ with
      | error e =>
        exact ⟨_, _, _, (Prog.run_bind_of_ok hrun₁ _).trans
          ((Prog.run_bind_of_ok hrun₂ _).trans (Prog.run_bind_of_error hrun₃ _)), hp, by simp⟩
      | ok a₃ =>
        refine ⟨_, _, _, (Prog.run_bind_of_ok hrun₁ _).trans
          ((Prog.run_bind_of_ok hrun₂ _).trans (Prog.run_bind_of_ok hrun₃ _)), hp, ?_⟩
        rintro _ ⟨⟩ i
        -- A CA that was set up is kept while the next ones are.
        cases i with
        | keyAuthority => exact hp₃.kept _ _ (hp₂.kept _ _ (hset₁.result _ rfl))
        | identity => exact hp₃.kept _ _ (hset₂.result _ rfl)
        | delegation => exact hset₃.result _ rfl

end Start

/-! ## Starts without faults -/

section NoFaults

variable {c : X509} {r : RootCrates} {created : ℕ} {args : Args} {fs : FileSystem}
  {key cert dn : String}

/-- The crates generate a CA from what they get, and encode it. -/
def Generates (c : X509) (r : RootCrates) (draw : RootDraw) (dn : String) : Prop :=
  ∃ a keyBytes certBytes, Authority.generate c r draw dn = .ok a ∧
    r.keyToPkcs8 a.signingKey = .ok keyBytes ∧ c.toDer a.cert = .ok certBytes

/-- If there is a certificate file, then there is a certificate in it. -/
def Readable (r : RootCrates) (fs : FileSystem) (cert : String) : Prop :=
  ∀ f, fs cert = some f → ∃ cert', r.certFromDer f.bytes = .ok cert'

theorem run_bothExist_nil : (bothExist key cert).run (fileSystem created) [] fs =
    (.ok ((fs key).isSome && (fs cert).isSome), [], fs) := by
  rw [bothExist, Prog.run_bind_of_ok (FileSystem.run_pathExists_nil key)]
  cases (fs key).isSome with
  | false => rfl
  | true => exact FileSystem.run_pathExists_nil cert

/-- A CA that is kept is loaded. -/
theorem run_load_nil (hr : r.Documented c) {a : Authority} (h : Kept c r fs key cert dn a) :
    (Authority.load r key cert).run (fileSystem created) [] fs = (.ok a, [], fs) := by
  obtain ⟨keyBytes, hkeyBytes, hkey⟩ := h.key
  obtain ⟨certBytes, mode, hcertBytes, hcert⟩ := h.cert
  rw [Authority.load, Prog.run_bind_of_ok (FileSystem.run_readFile_nil _ hkey),
    hr.keyFromPkcs8_toPkcs8 _ _ hkeyBytes, Prog.lift_ok_bind,
    Prog.run_bind_of_ok (FileSystem.run_readFile_nil _ hcert), hr.certFromDer_toDer _ _ hcertBytes,
    Prog.lift_ok_bind, h.sound.subject]
  rfl

theorem run_save_nil (created : ℕ) (fs : FileSystem) (key cert : String) {a : Authority}
    {keyBytes certBytes : Bytes} (hkeyBytes : r.keyToPkcs8 a.signingKey = .ok keyBytes)
    (hcertBytes : c.toDer a.cert = .ok certBytes) :
    ∃ fs', (a.save c r key cert).run (fileSystem created) [] fs = (.ok (), [], fs') := by
  have hwritten : (fs.write created key keyBytes key).isSome := by simp [FileSystem.write_self]
  rw [Authority.save, Prog.run_bind_of_ok (FileSystem.run_createParent_nil _ key), hkeyBytes,
    Prog.lift_ok_bind, Prog.run_bind_of_ok (FileSystem.run_writeFile_nil _ key keyBytes),
    Prog.run_bind_of_ok (FileSystem.run_setPermissions_nil _ keyFileMode hwritten), hcertBytes,
    Prog.lift_ok_bind]
  exact ⟨_, FileSystem.run_writeFile_nil _ cert certBytes⟩

/-- A CA comes up unless its certificate cannot be read. -/
theorem run_loadOrGenerateCa_nil (hr : r.Documented c) {draw : RootDraw}
    (hdraw : Generates c r draw dn) (hfiles : RootFiles c r fs key cert dn) :
    (Readable r fs cert ∧ ∃ a fs', (loadOrGenerateCa c r draw key cert dn).run
        (fileSystem created) [] fs = (.ok a, [], fs')) ∨
      (¬ Readable r fs cert ∧ ∃ e rest fs', (loadOrGenerateCa c r draw key cert dn).run
        (fileSystem created) [] fs = (.error e, rest, fs')) := by
  rw [loadOrGenerateCa, Prog.run_bind_of_ok run_bothExist_nil]
  -- Without faults the files decide: only a certificate file that is torn keeps the tower down.
  cases hfiles with
  | absent habsent =>
    obtain ⟨a, keyBytes, certBytes, hgenerate, hkeyBytes, hcertBytes⟩ := hdraw
    obtain ⟨fs', hsave⟩ := run_save_nil created fs key cert hkeyBytes hcertBytes
    rw [if_neg (by simp [habsent]), hgenerate, Prog.lift_ok_bind, Prog.run_bind_of_ok hsave]
    have hreadable : Readable r fs cert := fun f hf => by cases hf.symm.trans habsent
    exact .inl ⟨hreadable, a, fs', rfl⟩
  | kept hkept =>
    obtain ⟨certBytes, mode, hcertBytes, hcert⟩ := hkept.cert
    rw [if_pos hkept.both, run_load_nil hr hkept]
    refine .inl ⟨fun f hf => ?_, _, _, rfl⟩
    obtain rfl := Option.some.inj (hcert.symm.trans hf)
    exact ⟨_, hr.certFromDer_toDer _ _ hcertBytes⟩
  | torn hkey hcert htorn =>
    obtain ⟨res, rest, hload, hres⟩ := run_load (r := r) created key cert [] fs
    rw [if_pos (by simp [hkey, hcert]), hload]
    refine .inr ⟨fun hreadable => ?_, ?_⟩
    · obtain ⟨cert', hcert'⟩ := hreadable _ hcert
      exact htorn cert' hcert'
    · cases res with
      | error e => exact ⟨e, rest, fs, rfl⟩
      | ok a =>
        obtain ⟨_, _, -, hcert', -, hder, -⟩ := hres a rfl
        obtain rfl := Option.some.inj (hcert.symm.trans hcert')
        exact absurd hder (htorn _)

theorem run_root_nil (created : ℕ) (hc : c.Documented) (hr : r.Documented c) (hargs : args.Distinct)
    {i : Root} {draw : RootDraw} (hdraw : Generates c r draw i.dn) (hfiles : AllRoots c r args fs) :
    (Readable r fs (args.cert i) ∧ ∃ a fs', (loadOrGenerateCa c r draw (args.key i) (args.cert i)
        i.dn).run (fileSystem created) [] fs = (.ok a, [], fs') ∧ AllRoots c r args fs' ∧
          ∀ j ≠ i, fs' (args.cert j) = fs (args.cert j)) ∨
      (¬ Readable r fs (args.cert i) ∧ ∃ e rest fs', (loadOrGenerateCa c r draw (args.key i)
        (args.cert i) i.dn).run (fileSystem created) [] fs = (.error e, rest, fs')) := by
  refine (run_loadOrGenerateCa_nil hr hdraw (hfiles i)).imp_left ?_
  rintro ⟨hreadable, a, fs', hrun⟩
  have hright : Prog.Along (fileSystem created) LooksRight
      (loadOrGenerateCa c r draw (args.key i) (args.cert i) i.dn) [] fs :=
    FileSystem.along_of_dropped _ (by simp) fs
  obtain ⟨res, rest, fs'', hrun', hset⟩ :=
    setUp_loadOrGenerateCa hc hr (hargs.key_ne_cert i i) hright (hfiles i)
  obtain ⟨rfl, rfl, rfl⟩ : Except.ok a = res ∧ [] = rest ∧ fs' = fs'' := by
    simpa using hrun.symm.trans hrun'
  exact ⟨hreadable, a, fs', hrun, (hset.progress hargs hfiles).files,
    fun j hj => hset.frame _ (hargs.key_ne_cert i j).symm (hargs.cert_injective.ne hj)⟩

/-- A start without faults comes up unless a certificate cannot be read. -/
theorem run_startup_nil (created : ℕ) (hc : c.Documented) (hr : r.Documented c)
    (hargs : args.Distinct) {draws : RootDraws} (hdraws : ∀ i, Generates c r (draws.draw i) i.dn)
    (hfiles : AllRoots c r args fs) :
    ((∀ i, Readable r fs (args.cert i)) ∧ ∃ s rest fs', (startup c r args draws).run
        (fileSystem created) [] fs = (.ok s, rest, fs')) ∨
      ((¬ ∀ i, Readable r fs (args.cert i)) ∧ ∃ e rest fs', (startup c r args draws).run
        (fileSystem created) [] fs = (.error e, rest, fs')) := by
  rcases run_root_nil created hc hr hargs (hdraws .keyAuthority) hfiles with
    ⟨hreadable₁, a₁, fs₁, hrun₁, hfiles₁, hframe₁⟩ | ⟨hn, e, rest, fs', hrun₁⟩
  swap
  · exact .inr ⟨fun h => hn (h _), e, rest, fs', Prog.run_bind_of_error hrun₁ _⟩
  -- Setting up a CA leaves the certificate files of the others.
  have hidentity : Readable r fs₁ (args.cert .identity) ↔ Readable r fs (args.cert .identity) := by
    rw [Readable, hframe₁ _ (by decide), Readable]
  rcases run_root_nil created hc hr hargs (hdraws .identity) hfiles₁ with
    ⟨hreadable₂, a₂, fs₂, hrun₂, hfiles₂, hframe₂⟩ | ⟨hn, e, rest, fs', hrun₂⟩
  swap
  · exact .inr ⟨fun h => hn (hidentity.mpr (h _)), e, rest, fs',
      (Prog.run_bind_of_ok hrun₁ _).trans (Prog.run_bind_of_error hrun₂ _)⟩
  have hdelegation : Readable r fs₂ (args.cert .delegation) ↔
      Readable r fs (args.cert .delegation) := by
    rw [Readable, hframe₂ _ (by decide), hframe₁ _ (by decide), Readable]
  rcases run_root_nil created hc hr hargs (hdraws .delegation) hfiles₂ with
    ⟨hreadable₃, a₃, fs₃, hrun₃, -, -⟩ | ⟨hn, e, rest, fs', hrun₃⟩
  swap
  · exact .inr ⟨fun h => hn (hdelegation.mpr (h _)), e, rest, fs',
      (Prog.run_bind_of_ok hrun₁ _).trans
        ((Prog.run_bind_of_ok hrun₂ _).trans (Prog.run_bind_of_error hrun₃ _))⟩
  refine .inl ⟨fun i => ?_, ⟨a₁, a₂, a₃⟩, _, _, (Prog.run_bind_of_ok hrun₁ _).trans
    ((Prog.run_bind_of_ok hrun₂ _).trans (Prog.run_bind_of_ok hrun₃ _))⟩
  cases i with
  | keyAuthority => exact hreadable₁
  | identity => exact hidentity.mp hreadable₂
  | delegation => exact hdelegation.mp hreadable₃

end NoFaults

/-! ## The names of the roots -/

/-- The common name of a CA. -/
def Root.commonName : Root → String
  | .keyAuthority => "sumo-ca root"
  | .identity => "sumo identity root"
  | .delegation => "sumo delegation root"

section Names

variable {c : X509}

/-- The name of a CA has its common name and the organization. -/
theorem exists_of_nameFromStr_dn {i : Root} {name : Name Oid} (hp : c.ParsesName i.dn)
    (h : c.nameFromStr i.dn = .ok name) :
    ∃ cn o, name = [{⟨o, ⟨c.stringTag o, Text.utf8 "sumo"⟩⟩},
      {⟨cn, ⟨c.stringTag cn, Text.utf8 i.commonName⟩⟩}] := by
  have hdn : i.dn = "CN" ++ "=" ++ i.commonName ++ "," ++ ("O" ++ "=" ++ "sumo") := by
    cases i <;> decide
  have hlast : ("CN" ++ "=" ++ i.commonName).toList.getLast? ≠ some '\\' := by
    cases i <;> decide
  have hplain : Plain i.commonName := by
    cases i <;> exact ⟨by decide, by decide, by decide, by decide⟩
  have horganization : Plain "sumo" := ⟨by decide, by decide, by decide, by decide⟩
  have hreads := hp name h
  rw [hdn] at hreads
  obtain ⟨cnName, oName, hcn, ho, rfl⟩ := hreads.exists_append hlast
  obtain ⟨cn, -, rfl⟩ := hcn.exists_of_plain (by decide) hplain
  obtain ⟨o, -, rfl⟩ := ho.exists_of_plain (by decide) horganization
  exact ⟨cn, o, rfl⟩

/-- Two CAs have two names. -/
theorem eq_of_nameFromStr_dn (hp : ∀ i : Root, c.ParsesName i.dn) {i j : Root} {name : Name Oid}
    (hi : c.nameFromStr i.dn = .ok name) (hj : c.nameFromStr j.dn = .ok name) : i = j := by
  obtain ⟨cn, o, rfl⟩ := exists_of_nameFromStr_dn (hp i) hi
  obtain ⟨cn', o', heq⟩ := exists_of_nameFromStr_dn (hp j) hj
  have hcommonName : i.commonName = j.commonName := by
    apply Text.utf8_injective
    simp only [List.cons.injEq, Multiset.singleton_inj, Attribute.mk.injEq,
      AttributeValue.mk.injEq] at heq
    exact heq.2.1.2.2
  cases i <;> cases j <;> first | rfl | exact absurd hcommonName (by decide)

end Names

end IdentityTower
