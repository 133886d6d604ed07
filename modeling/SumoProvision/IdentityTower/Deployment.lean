import SumoProvision.IdentityTower.Roots

/-!
# The tower on its machine

The files of the CAs stay on the machine from one start of Tower 1 to the next, and the roster stays
in its database. In between, the tower serves requests with the CAs that it has loaded or generated.

`authorities_survive` says that the tower always comes up with the CAs it has come up with before,
whatever its starts have run into; `start_comes_up_iff` that a start without faults comes up unless
a certificate file cannot be read; `minted_anchors_on_file` that the keystores it mints have the
anchors in the files; and `stored_leaves_chain` that the certificates in the roster verify under the
identity root of whatever start serves it, and under no other root.
-/

namespace IdentityTower

open Wire Rfc4514

/-! ## Definitions -/

/-- The files, the roster, and the CAs while the tower is up. -/
structure Deployment where
  files : FileSystem
  tower : Tower
  running : Option AppState

/-- What happens to the tower. A start ends the process that is running; a process that is killed
while it starts is a fault of the start. -/
inductive Event where
  | start (draws : RootDraws) (faults : List (Option (Fault FileError)))
  | serve (draw : Vector UInt8 20) (validityFromNow : ℕ → Except String Validity) (req : Request)
      (faults : Faults)
  | stop

namespace Deployment

/-- A machine with an empty roster on which the tower has never been started. -/
def fresh (files : FileSystem) : Deployment :=
  ⟨files, .empty, none⟩

section

variable (c : X509) (r : RootCrates) (sha : Sha256) (args : Args) (created : ℕ)

/-- The clock at a request. -/
def atClock (validityFromNow : ℕ → Except String Validity) : X509 :=
  { c with validityFromNow }

/-- One event; new files get the mode `created`. -/
def next (d : Deployment) : Event → Deployment
  | .start draws faults =>
    let (res, _, files) := (startup c r args draws).run (fileSystem created) faults d.files
    ⟨files, d.tower, res.toOption⟩
  | .serve draw validityFromNow req faults =>
    match d.running with
    | some s => { d with
        tower := d.tower.next (s.identityCa.toIssuer.toCa (atClock c validityFromNow) sha draw)
          (req, faults) }
    | none => d
  | .stop => { d with running := none }

/-- If the event is a start, then no look at a file fails that is there: the tower would take that
for the absence of the file, and replace the CA. -/
def SeesFiles (d : Deployment) : Event → Prop
  | .start draws faults =>
    Prog.Along (fileSystem created) LooksRight (startup c r args draws) faults d.files
  | _ => True

/-- The states that follow a state, where no look at a file fails that is there. -/
inductive Reachable (d : Deployment) : Deployment → Prop where
  | refl : Reachable d d
  | next {d' : Deployment} (e : Event) (h : Reachable d d') (he : d'.SeesFiles c r args created e) :
      Reachable d (d'.next c r sha args created e)

end

end Deployment

/-! ## Leaves under the identity root -/

/-- The certificate was issued under the root: it has the name of the root as its issuer, and its
signature verifies under the key in the root. -/
structure Chains (c : X509) (r : RootCrates) (root leaf : Certificate) : Prop where
  issuer : leaf.tbs.issuer = root.tbs.subject
  signature : ∃ point, c.verifyingKey root.tbs.publicKey.der = some point ∧
    c.verify point (r.tbsToDer leaf.tbs) leaf.signature = true

section Leaf

variable {c : X509} {r : RootCrates}

theorem issuer_addSubjectAltName (hr : r.Documented c) {deviceId : String} {usage : LeafUsage}
    {tbs tbs' : TbsCertificate} (h : addSubjectAltName c deviceId tbs usage = .ok tbs') :
    tbs'.issuer = tbs.issuer := by
  cases usage with
  | client =>
    cases h
    rfl
  | mtls =>
    obtain ⟨sanId, -, h⟩ := Except.bind_eq_ok_iff.mp h
    obtain ⟨sanLocal, -, h⟩ := Except.bind_eq_ok_iff.mp h
    exact hr.issuer_addExtension _ _ _ h

/-- A leaf that a CA issues is under its root. -/
theorem chains_leafCertificate (hr : r.Documented c) {dn deviceId : String} {a : Authority}
    (ha : a.Sound c r dn) {validityFromNow : ℕ → Except String Validity} {draw : Vector UInt8 20}
    {csr : Bytes} {usage : LeafUsage} {cert : Certificate} {serial : Bytes}
    (h : leafCertificate (Deployment.atClock c validityFromNow) a.toIssuer draw deviceId csr usage =
      .ok (cert, serial)) : Chains c r a.cert cert := by
  obtain ⟨req, -, h⟩ := Except.bind_eq_ok_iff.mp h
  obtain ⟨subject, -, h⟩ := Except.bind_eq_ok_iff.mp h
  obtain ⟨serial', -, h⟩ := Except.bind_eq_ok_iff.mp h
  obtain ⟨validity, -, h⟩ := Except.bind_eq_ok_iff.mp h
  obtain ⟨builder, hnew, h⟩ := Except.bind_eq_ok_iff.mp h
  obtain ⟨withEku, heku, h⟩ := Except.bind_eq_ok_iff.mp h
  obtain ⟨withSan, hsan, h⟩ := Except.bind_eq_ok_iff.mp h
  obtain ⟨cert', hbuild, h⟩ := Except.bind_eq_ok_iff.mp h
  cases h
  constructor
  · have hsan' : withSan.issuer = withEku.issuer := issuer_addSubjectAltName hr hsan
    rw [hr.issuer_build _ _ _ hbuild, hsan', hr.issuer_addExtension _ _ _ heku,
      hr.issuer_newBuilder _ _ _ hnew, ha.subject]
  · exact hr.verify_build _ _ _ _ hbuild ha.publicKey

end Leaf

/-! ## Runs of the tower -/

namespace Deployment

variable {c : X509} {r : RootCrates} {sha : Sha256} {args : Args} {created : ℕ}
  {files : FileSystem} {d d' : Deployment}

/-- The files and the CAs that the tower runs with agree, and every stored certificate is a leaf of
the identity root in the files. -/
structure Sound (c : X509) (r : RootCrates) (args : Args) (d : Deployment) : Prop where
  files : AllRoots c r args d.files
  running : ∀ s, d.running = some s → ∀ i, HasRoot c r args d.files i (s.authority i)
  certs : ∀ row ∈ d.tower.roster.certs.rows, ∃ a cert, HasRoot c r args d.files .identity a ∧
    c.toDer cert = .ok row.certDer ∧ Chains c r a.cert cert

/-- A process is only ever killed while it starts. -/
def OnlyKilled : Event → Prop
  | .start _ faults => ∀ f, some f ∈ faults → f.why = .dropped
  | _ => True

theorem reachable_foldl {events : List Event} (hevents : ∀ e ∈ events, OnlyKilled e)
    (h : Reachable c r sha args created d d') :
    Reachable c r sha args created d (events.foldl (next c r sha args created) d') := by
  induction events generalizing d' with
  | nil => exact h
  | cons e events ih =>
    have he : d'.SeesFiles c r args created e := by
      cases e with
      | start draws faults =>
        exact FileSystem.along_of_dropped _ (hevents _ List.mem_cons_self) _
      | serve draw validityFromNow req faults | stop => trivial
    exact ih (fun e he => hevents e (List.mem_cons_of_mem _ he)) (.next e h he)

theorem sound_fresh (h : ∀ i, files (args.cert i) = none) : (fresh files).Sound c r args where
  files i := .absent (h i)
  running := by simp [fresh]
  certs := by simp [fresh, Tower.empty, Roster.empty]

/-- An event loses no CA, and keeps the tower sound. -/
theorem Sound.next (sha : Sha256) (hc : c.Documented) (hr : r.Documented c) (hargs : args.Distinct)
    (h : d.Sound c r args) {e : Event} (he : d.SeesFiles c r args created e) :
    (d.next c r sha args created e).Sound c r args ∧
      Progress c r args d.files (d.next c r sha args created e).files := by
  have hrefl : Progress c r args d.files d.files := ⟨h.files, fun _ _ ha => ha⟩
  cases e with
  | start draws faults =>
    obtain ⟨res, rest, fs', hrun, hprogress, hres⟩ := run_startup hc hr hargs he h.files
    have hnext : d.next c r sha args created (.start draws faults) =
        ⟨fs', d.tower, res.toOption⟩ := by
      simp only [Deployment.next, hrun]
    rw [hnext]
    refine ⟨⟨hprogress.files, fun s hs => ?_, fun row hrow => ?_⟩, hprogress⟩
    · cases res with
      | error e => cases hs
      | ok s' =>
        cases hs
        exact hres _ rfl
    · obtain ⟨a, cert, ha, hcert⟩ := h.certs row hrow
      exact ⟨a, cert, hprogress.kept _ _ ha, hcert⟩
  | serve draw validityFromNow req faults =>
    cases hrunning : d.running with
    | none =>
      have hnext : d.next c r sha args created (.serve draw validityFromNow req faults) = d := by
        simp only [Deployment.next, hrunning]
      rw [hnext]
      exact ⟨h, hrefl⟩
    | some s =>
      simp only [Deployment.next, hrunning]
      refine ⟨⟨h.files, fun s' hs' => h.running s' (hrunning.trans hs'),
        Request.forall_certs_apply h.certs ?_⟩, hrefl⟩
      intro id keyId csr usage issued time _ hissued
      obtain ⟨cert, serial, hcert, hder⟩ := exists_of_issueLeaf hissued
      -- The CA that signs is the one in the files.
      have hroot : HasRoot c r args d.files .identity s.identityCa := h.running s hrunning .identity
      exact ⟨s.identityCa, cert, hroot, hder, chains_leafCertificate hr hroot.sound hcert⟩
  | stop =>
    exact ⟨⟨h.files, by simp [Deployment.next], h.certs⟩, hrefl⟩

theorem Sound.of_reachable (hc : c.Documented) (hr : r.Documented c) (hargs : args.Distinct)
    (h : d.Sound c r args) (hd : Reachable c r sha args created d d') :
    d'.Sound c r args ∧ Progress c r args d.files d'.files := by
  induction hd with
  | refl => exact ⟨h, h.files, fun _ _ ha => ha⟩
  | next e _ he ih =>
    obtain ⟨hsound, hprogress⟩ := ih
    obtain ⟨hsound', hprogress'⟩ := hsound.next sha hc hr hargs he
    exact ⟨hsound', hprogress.trans hprogress'⟩

/-- On a machine on which the tower has never been started, and through starts that are killed or
fail at any point, requests and stops: whenever the tower comes up, it has the CAs that it had
whenever it was up before, with every key file readable by its owner only. It mints keystores and
serves roots with these. -/
theorem authorities_survive (hc : c.Documented) (hr : r.Documented c) (hargs : args.Distinct)
    (hfiles : ∀ i, files (args.cert i) = none)
    (hd : Reachable c r sha args created (fresh files) d) {s : AppState} (hs : d.running = some s) :
    (∀ d', Reachable c r sha args created d d' → ∀ i, HasRoot c r args d'.files i (s.authority i)) ∧
    ∀ d' s', Reachable c r sha args created d d' → d'.running = some s' → s' = s := by
  have hsound := ((sound_fresh hfiles).of_reachable hc hr hargs hd).1
  have hkept : ∀ d', Reachable c r sha args created d d' →
      ∀ i, HasRoot c r args d'.files i (s.authority i) := fun d' hd' i =>
    (hsound.of_reachable hc hr hargs hd').2.kept i _ (hsound.running s hs i)
  refine ⟨hkept, fun d' s' hd' hs' => ?_⟩
  have hauthority : ∀ i, s'.authority i = s.authority i := fun i =>
    (hkept d' hd' i).unique hr ((hsound.of_reachable hc hr hargs hd').1.running s' hs' i)
  obtain ⟨_, _, _⟩ := s
  obtain ⟨_, _, _⟩ := s'
  rw [AppState.mk.injEq]
  exact ⟨hauthority .keyAuthority, hauthority .identity, hauthority .delegation⟩

/-- Whatever has happened so far, a start without faults comes up iff every certificate file that
there is can be read, where the crates can generate and encode CAs: a certificate file that was cut
off keeps the tower down. A tower that was up before comes up again. -/
theorem start_comes_up_iff (hc : c.Documented) (hr : r.Documented c) (hargs : args.Distinct)
    (hfiles : ∀ i, files (args.cert i) = none)
    (hd : Reachable c r sha args created (fresh files) d)
    (hd' : Reachable c r sha args created d d') {draws : RootDraws}
    (hdraws : ∀ i, Generates c r (draws.draw i) i.dn) :
    ((d'.next c r sha args created (.start draws [])).running.isSome ↔
      ∀ i, Readable r d'.files (args.cert i)) ∧
    (d.running.isSome → (d'.next c r sha args created (.start draws [])).running.isSome) := by
  have hsound := ((sound_fresh hfiles).of_reachable hc hr hargs hd).1
  obtain ⟨hsound', hprogress⟩ := hsound.of_reachable hc hr hargs hd'
  have hiff : (d'.next c r sha args created (.start draws [])).running.isSome ↔
      ∀ i, Readable r d'.files (args.cert i) := by
    rw [Deployment.next]
    rcases run_startup_nil created hc hr hargs hdraws hsound'.files with
      ⟨hreadable, s, rest, fs', hrun⟩ | ⟨hn, e, rest, fs', hrun⟩
    · rw [hrun]
      exact iff_of_true rfl hreadable
    · rw [hrun]
      exact iff_of_false (by simp [Except.toOption]) hn
  refine ⟨hiff, fun hup => hiff.mpr fun i f hf => ?_⟩
  obtain ⟨s, hs⟩ := Option.isSome_iff_exists.mp hup
  obtain ⟨certBytes, mode, hcertBytes, hcert⟩ := (hprogress.kept i _ (hsound.running s hs i)).cert
  obtain rfl := Option.some.inj (hcert.symm.trans hf)
  exact ⟨_, hr.certFromDer_toDer _ _ hcertBytes⟩

/-- A keystore that the tower mints in a run has the public key of the key authority and the
delegation root as the certificate files have them at any later time: the device that has the key
in the roster opens it, and finds the key authority in every anchor that is neither the software
authority of the request nor the one for a factory reset, and the delegation root pinned. -/
theorem minted_anchors_on_file (hc : c.Documented) (hr : r.Documented c) (hargs : args.Distinct)
    (hfiles : ∀ i, files (args.cert i) = none)
    (hd : Reachable c r sha args created (fresh files) d) {s : AppState} (hs : d.running = some s)
    {hsm : Hsm} (hdoc : hsm.Documented) {suit : Suit} {ec2 : Ec2 suit} {off : Offboard suit}
    (hfactory : ∀ key, suit.fromCoseKeyBytes hsm.factoryKeyCbor = .ok key →
      ec2.ec2PublicXy key = .ok (coordinates hsm.factorySigningPublic))
    {collate : String → String → Bool} {faults : Faults} {call : MintCall suit} {id : String}
    {req : MintKeystoreReq} {envelope : Bytes}
    (hmint : ((mintKeystoreEndpoint hsm ec2 off sha (s.mintState c r) call id req).run
      (rosterReadDb collate) faults d.tower.roster).1 = .ok envelope) :
    ∃ pubkey cose key swCose swAuthority keyAuthority root,
      d.tower.roster.pubkeyOf id = some pubkey ∧
      Hex.decode (Text.trim pubkey).toList = some cose ∧ suit.fromCoseKeyBytes cose = .ok key ∧
      Hex.decode (Text.trim req.swAuthorityPubkey).toList = some swCose ∧
      ec2.coseToSec1 swCose = .ok swAuthority ∧
      (∀ d', Reachable c r sha args created d d' →
        (∃ f cert, d'.files (args.cert .keyAuthority) = some f ∧
          r.certFromDer f.bytes = .ok cert ∧
          cert.tbs.publicKey.subjectPublicKey = some keyAuthority.toList) ∧
        ∃ mode, d'.files (args.cert .delegation) = some ⟨root, mode⟩) ∧
      ∀ (on : Onboard ec2 off) secret, on.publicKey secret = key → ∃ ks,
        on.openKeystore hsm sha secret hsm.factorySigningPublic envelope = some ks ∧
        ks.Provisions hsm swAuthority keyAuthority req.securityVersion
          (d.tower.roster.certOf id "tls-identity") root := by
  have hsound := ((sound_fresh hfiles).of_reachable hc hr hargs hd).1
  obtain ⟨pubkey, cose, swCose, keyAuthority, root, hpubkey, hcose, hswCose, hka, hroot, hminted⟩ :=
    run_mintKeystoreEndpoint_of_ok hmint
  obtain ⟨swAuthority, key, hsw, hkey, hopen⟩ := openKeystore_of_mintKeystore hdoc hfactory hminted
  refine ⟨pubkey, cose, key, swCose, swAuthority, keyAuthority, root, hpubkey, hcose, hkey, hswCose,
    hsw, fun d' hd' => ?_, fun on secret hsecret => ?_⟩
  · -- The CAs that the keystore was minted with are still in the files.
    have hkept : ∀ i, HasRoot c r args d'.files i (s.authority i) := fun i =>
      (hsound.of_reachable hc hr hargs hd').2.kept i _ (hsound.running s hs i)
    constructor
    · obtain ⟨certBytes, mode, hcertBytes, hcert⟩ := (hkept .keyAuthority).cert
      exact ⟨_, _, hcert, hr.certFromDer_toDer _ _ hcertBytes,
        (hkept .keyAuthority).sound.publicSec1 hka⟩
    · obtain ⟨certBytes, mode, hcertBytes, hcert⟩ := (hkept .delegation).cert
      obtain rfl : certBytes = root := Except.ok.inj (hcertBytes.symm.trans hroot)
      exact ⟨mode, hcert⟩
  · exact ⟨_, hopen on secret hsecret, hdoc.provisions _ _ _⟩

/-- Whatever start the tower runs from, every certificate in the roster was issued under the
identity root that it serves now, and under none of the other roots. -/
theorem stored_leaves_chain (hc : c.Documented) (hr : r.Documented c)
    (hnames : ∀ i : Root, c.ParsesName i.dn) (hargs : args.Distinct)
    (hfiles : ∀ i, files (args.cert i) = none)
    (hd : Reachable c r sha args created (fresh files) d) {s : AppState} (hs : d.running = some s) :
    ∀ row ∈ d.tower.roster.certs.rows, ∃ leaf, c.toDer leaf = .ok row.certDer ∧
      ∀ i, Chains c r (s.authority i).cert leaf ↔ i = .identity := by
  intro row hrow
  have hsound := ((sound_fresh hfiles).of_reachable hc hr hargs hd).1
  obtain ⟨a, leaf, ha, hder, hchains⟩ := hsound.certs row hrow
  have hroot := hsound.running s hs
  obtain rfl : a = s.authority .identity := (hroot .identity).unique hr ha
  refine ⟨leaf, hder, fun i => ⟨fun hi => ?_, fun hi => hi ▸ hchains⟩⟩
  -- The issuer of the leaf is the name of one CA.
  have hissuer : (s.authority i).issuer = (s.authority .identity).issuer := by
    rw [← (hroot i).sound.subject, ← (hroot .identity).sound.subject, ← hi.issuer, hchains.issuer]
  exact eq_of_nameFromStr_dn hnames (hissuer ▸ (hroot i).sound.issuer)
    (hroot .identity).sound.issuer

end Deployment

/-! ## A tower on a new machine -/

deriving instance DecidableEq for SubjectPublicKeyInfo, DateTime, Validity, TbsCertificate,
  Certificate

/-- The crates that encode these certificates, each as its index. A signature is the key. -/
def rootX509 (certs : List Certificate) : X509 :=
  { sampleX509 with
    requestFromDer := fun csr =>
      if csr = [1] then .ok ⟨⟨[], ⟨[2], some (4 :: List.replicate 64 7)⟩⟩, some [2]⟩
      else .error "malformed DER"
    verifyingKey := some
    verify := fun point _ signature => decide (point = signature)
    build := fun key tbs => .ok ⟨tbs, key⟩
    toDer := fun cert =>
      if cert ∈ certs then .ok [UInt8.ofNat (certs.idxOf cert)] else .error "unknown certificate"
    toPem := fun _ => .ok "" }

/-- The crates for keys, where the public key is the signing key, and its point consists of the
first byte. -/
def sampleRootCrates (certs : List Certificate) : RootCrates where
  publicKey key := .ok ⟨key, some (4 :: List.replicate 64 (key.headD 0))⟩
  newRoot _ := .ok
  keyToPkcs8 := .ok
  keyFromPkcs8 := .ok
  certFromDer
    | [code] =>
      match certs[code.toNat]? with
      | some cert => .ok cert
      | none => .error "malformed DER"
    | _ => .error "malformed DER"
  tbsToDer _ := []

theorem parsesName_rootX509 (certs : List Certificate) (s : String) :
    (rootX509 certs).ParsesName s :=
  parsesNames_sampleX509.reads s

theorem documented_rootX509 (certs : List Certificate) : (rootX509 certs).Documented where
  subject_newBuilder := documented_sampleX509.subject_newBuilder
  subject_addExtension := documented_sampleX509.subject_addExtension
  subject_build key tbs cert h := by
    cases h
    rfl

theorem documented_sampleRootCrates {certs : List Certificate} (hcerts : certs.length ≤ 256) :
    (sampleRootCrates certs).Documented (rootX509 certs) where
  keyFromPkcs8_toPkcs8 key bytes h := by
    cases h
    rfl
  certFromDer_toDer cert bytes h := by
    simp only [rootX509] at h
    split at h
    · rename_i hmem
      cases h
      have hlt : certs.idxOf cert < 256 := (List.idxOf_lt_length_of_mem hmem).trans_le hcerts
      have hcode : (UInt8.ofNat (certs.idxOf cert)).toNat = certs.idxOf cert :=
        UInt8.toNat_ofNat_of_lt' hlt
      simp only [sampleRootCrates, hcode, List.getElem?_idxOf hmem]
    · cases h
  certFromDer_take cert bytes n cert' h hn h' := by
    simp only [rootX509] at h
    split at h
    · cases h
      obtain rfl : n = 0 := by simpa using hn
      cases h'
    · cases h
  subject_newRoot key tbs tbs' h := by
    cases h
    rfl
  publicKey_newRoot key tbs tbs' h := by
    cases h
    rfl
  issuer_newBuilder key tbs tbs' h := by
    cases h
    rfl
  issuer_addExtension tbs ext tbs' h := by
    cases h
    rfl
  issuer_build key tbs cert h := by
    cases h
    rfl
  publicKey_build key tbs cert h := by
    cases h
    rfl
  verify_build key tbs cert spki h hspki := by
    cases h
    cases hspki
    exact ⟨key, rfl, by simp [rootX509]⟩

/-- What a start gets. -/
def sampleDraws (n : UInt8) : RootDraws :=
  let draw (key : UInt8) : RootDraw := ⟨[key], .replicate 20 key, sampleX509.validityFromNow⟩
  ⟨draw n, draw (n + 1), draw (n + 2)⟩

/-- The roots that a start with `sampleDraws 1` or `sampleDraws 4` generates, and a leaf of the
first identity root. -/
def sampleCerts : List Certificate :=
  let generate (n : UInt8) (i : Root) := (Authority.generate (rootX509 []) (sampleRootCrates [])
    ((sampleDraws n).draw i) i.dn).toOption
  let roots (n : UInt8) := [Root.keyAuthority, .identity, .delegation].filterMap fun i =>
    (generate n i).map (·.cert)
  let leaf := (generate 1 .identity).bind fun a =>
    (leafCertificate (rootX509 []) a.toIssuer (.replicate 20 9) "rig-1" [1] .mtls).toOption
  roots 1 ++ roots 4 ++ (leaf.map (·.1)).toList

/-- The default paths. -/
def sampleArgs : Args where
  caKey := "data/ca-authority.key"
  caCert := "data/ca-cert.der"
  identityKey := "data/identity.key"
  identityCert := "data/identity-cert.der"
  delegationKey := "data/delegation.key"
  delegationCert := "data/delegation-cert.der"

theorem distinct_sampleArgs : sampleArgs.Distinct where
  key_ne_cert i j := by cases i <;> cases j <;> decide
  key_injective i j h := by
    cases i <;> cases j <;> first | rfl | exact absurd h (by decide)
  cert_injective i j h := by
    cases i <;> cases j <;> first | rfl | exact absurd h (by decide)

namespace Deployment

/-- The events one after the other, from a new machine. -/
def sampleRun (events : List Event) : Deployment :=
  events.foldl
    (next (rootX509 sampleCerts) (sampleRootCrates sampleCerts) (.ofDigests []) sampleArgs 0o644)
    (fresh fun _ => none)

/-- A start is killed while it writes the first key. The next one comes up, and the tower registers
a device and issues its TLS leaf. -/
def sampleEvents : List Event :=
  [.start (sampleDraws 1) [none, none, some (.torn 1 .dropped)], .start (sampleDraws 1) [],
    .serve (.replicate 20 9) sampleX509.validityFromNow (.register ⟨"rig-1", none, some "a1"⟩)
      [],
    .serve (.replicate 20 9) sampleX509.validityFromNow (.enroll "rig-1" "tls-identity" [1]) []]

/-- Then the tower is started again, with other random keys at hand. -/
def sampleRestart : List Event :=
  [.stop, .start (sampleDraws 4) []]

theorem onlyKilled_sampleEvents : ∀ e ∈ sampleEvents, OnlyKilled e := by
  simp [sampleEvents, OnlyKilled, Fault.why]

theorem reachable_sampleRun {events : List Event} (hevents : ∀ e ∈ events, OnlyKilled e) :
    Reachable (rootX509 sampleCerts) (sampleRootCrates sampleCerts) (.ofDigests []) sampleArgs 0o644
      (fresh fun _ => none) (sampleRun events) :=
  reachable_foldl hevents .refl

theorem reachable_sampleRestart :
    Reachable (rootX509 sampleCerts) (sampleRootCrates sampleCerts) (.ofDigests []) sampleArgs 0o644
      (sampleRun sampleEvents) (sampleRun (sampleEvents ++ sampleRestart)) := by
  have hrun : sampleRun (sampleEvents ++ sampleRestart) = sampleRestart.foldl
      (next (rootX509 sampleCerts) (sampleRootCrates sampleCerts) (.ofDigests []) sampleArgs 0o644)
      (sampleRun sampleEvents) := List.foldl_append
  rw [hrun]
  exact reachable_foldl (by simp [sampleRestart, OnlyKilled]) .refl

theorem isSome_running_sampleRun : (sampleRun sampleEvents).running.isSome ∧
    (sampleRun (sampleEvents ++ sampleRestart)).running.isSome := by
  decide +kernel

theorem documented_sampleCerts : (sampleRootCrates sampleCerts).Documented (rootX509 sampleCerts) :=
  documented_sampleRootCrates (by decide +kernel)

/-- The restarted tower has the CAs of the first one. -/
theorem authorities_survive_restart : ∃ s, (sampleRun sampleEvents).running = some s ∧
    (sampleRun (sampleEvents ++ sampleRestart)).running = some s := by
  obtain ⟨hup, hup'⟩ := isSome_running_sampleRun
  obtain ⟨s, hs⟩ := Option.isSome_iff_exists.mp hup
  obtain ⟨s', hs'⟩ := Option.isSome_iff_exists.mp hup'
  have hsame := (authorities_survive (documented_rootX509 _) documented_sampleCerts
    distinct_sampleArgs (fun _ => rfl) (reachable_sampleRun onlyKilled_sampleEvents) hs).2 _ s'
    reachable_sampleRestart hs'
  exact ⟨s, hs, hsame ▸ hs'⟩

/-- A look at a key file that fails is taken for the absence of the file, and replaces the CA. -/
theorem key_authority_replaced_failed_look :
    (sampleRun sampleEvents).running.map (·.keyAuthorityCa.signingKey) = some [1] ∧
      (sampleRun (sampleEvents ++ [.start (sampleDraws 4)
        [some (.rejected (.failed (.other "Permission denied (os error 13)")))]])).running.map
          (·.keyAuthorityCa.signingKey) = some [4] := by
  decide +kernel

/-- A start that is killed while it writes the first certificate. -/
def sampleTorn : List Event :=
  [.start (sampleDraws 1) [none, none, none, none, some (.torn 0 .dropped)]]

theorem generates_sampleDraws (i : Root) : Generates (rootX509 sampleCerts)
    (sampleRootCrates sampleCerts) ((sampleDraws 1).draw i) i.dn := by
  have hencoded : (Authority.generate (rootX509 sampleCerts) (sampleRootCrates sampleCerts)
      ((sampleDraws 1).draw i) i.dn >>= fun a =>
        (rootX509 sampleCerts).toDer a.cert).toOption.isSome := by
    cases i <;> decide +kernel
  rcases hder : Authority.generate (rootX509 sampleCerts) (sampleRootCrates sampleCerts)
      ((sampleDraws 1).draw i) i.dn >>= fun a =>
        (rootX509 sampleCerts).toDer a.cert with e | certBytes
  · rw [hder] at hencoded
    cases hencoded
  · obtain ⟨a, ha, hcertBytes⟩ := Except.bind_eq_ok_iff.mp hder
    exact ⟨a, _, certBytes, ha, rfl, hcertBytes⟩

theorem sampleRun_concat (events : List Event) (e : Event) : sampleRun (events ++ [e]) =
    (sampleRun events).next (rootX509 sampleCerts) (sampleRootCrates sampleCerts) (.ofDigests [])
      sampleArgs 0o644 e :=
  List.foldl_concat _ _ _ _

/-- The cut off certificate keeps the tower down, and a tower that was up comes up again. -/
theorem start_comes_up_iff_torn :
    ¬ (sampleRun (sampleTorn ++ [.start (sampleDraws 1) []])).running.isSome ∧
      (sampleRun (sampleEvents ++ [.start (sampleDraws 1) []])).running.isSome := by
  have htorn : (sampleRun sampleTorn).files (sampleArgs.cert .keyAuthority) =
      some ⟨[], 0o644⟩ := by
    decide +kernel
  have hkilled : ∀ e ∈ sampleTorn, OnlyKilled e := by simp [sampleTorn, OnlyKilled, Fault.why]
  rw [sampleRun_concat, sampleRun_concat]
  constructor
  · intro hup
    have hreadable := (start_comes_up_iff (documented_rootX509 _) documented_sampleCerts
      distinct_sampleArgs (fun _ => rfl) (reachable_sampleRun hkilled) .refl
      generates_sampleDraws).1.mp hup
    obtain ⟨cert, hcert⟩ := hreadable .keyAuthority _ htorn
    cases hcert
  · exact (start_comes_up_iff (documented_rootX509 _) documented_sampleCerts distinct_sampleArgs
      (fun _ => rfl) (reachable_sampleRun onlyKilled_sampleEvents) .refl generates_sampleDraws).2
      isSome_running_sampleRun.1

/-- The restarted tower serves the root of the stored leaf. -/
theorem stored_leaves_chain_restart : ∃ s row leaf,
    (sampleRun (sampleEvents ++ sampleRestart)).running = some s ∧
    row ∈ (sampleRun (sampleEvents ++ sampleRestart)).tower.roster.certs.rows ∧
    (rootX509 sampleCerts).toDer leaf = .ok row.certDer ∧
    ∀ i, Chains (rootX509 sampleCerts) (sampleRootCrates sampleCerts) (s.authority i).cert leaf ↔
      i = .identity := by
  have hrows : (sampleRun (sampleEvents ++ sampleRestart)).tower.roster.certs.rows ≠ [] := by
    decide +kernel
  obtain ⟨s, hs⟩ := Option.isSome_iff_exists.mp isSome_running_sampleRun.2
  obtain ⟨row, hrow⟩ := List.exists_mem_of_ne_nil _ hrows
  obtain ⟨leaf, hder, hchains⟩ := stored_leaves_chain (documented_rootX509 _) documented_sampleCerts
    (fun i => parsesName_rootX509 _ i.dn) distinct_sampleArgs (fun _ => rfl)
    (reachable_sampleRun (by simp [sampleEvents, sampleRestart, OnlyKilled, Fault.why])) hs row hrow
  exact ⟨s, row, leaf, hs, hrow, hder, hchains⟩

/-- The keystore for the device, minted after the first start that comes up. -/
def sampleMintOnFile (s : AppState) : Except (Stop MintError) Bytes :=
  ((mintKeystoreEndpoint (sampleHsm (some [6]) [2]) (sampleEc2 Suit.framed)
    (sampleOffboard Suit.framed (.ofDigests []) ()) (.ofDigests [])
    (s.mintState (rootX509 sampleCerts) (sampleRootCrates sampleCerts)) ⟨.ok (), 0⟩ "rig-1"
    ⟨"b2", 1⟩).run (rosterReadDb (· ≤ ·)) [] (sampleRun sampleEvents).tower.roster).1

theorem sampleMintOnFile_eq :
    (sampleRun sampleEvents).running.map sampleMintOnFile = some (.ok [0xD8]) := by
  decide +kernel

/-- In a keystore of the first start, the device finds the key authority and the delegation root
that the files have after the second. -/
theorem minted_anchors_on_file_restart : ∃ s ks slot f cert mode,
    (sampleRun sampleEvents).running = some s ∧ sampleMintOnFile s = .ok [0xD8] ∧
    (sampleOnboard Suit.framed (.ofDigests []) ()).openKeystore (sampleHsm (some [6]) [2])
      (.ofDigests []) () sampleKey [0xD8] = some ks ∧
    slot ∈ ks.slots ∧ slot.keyId = "key-authority" ∧
    (sampleRun (sampleEvents ++ sampleRestart)).files (sampleArgs.cert .keyAuthority) = some f ∧
    (sampleRootCrates sampleCerts).certFromDer f.bytes = .ok cert ∧
    slot.anchorPublicKey = cert.tbs.publicKey.subjectPublicKey ∧
    (sampleRun (sampleEvents ++ sampleRestart)).files (sampleArgs.cert .delegation) =
      some ⟨[2], mode⟩ ∧
    ks.trustAnchors = [⟨"delegation-root", [2]⟩] := by
  obtain ⟨s, hs⟩ := Option.isSome_iff_exists.mp isSome_running_sampleRun.1
  have hmint : sampleMintOnFile s = .ok [0xD8] := by
    have hmap := sampleMintOnFile_eq
    rw [hs] at hmap
    exact Option.some.inj hmap
  obtain ⟨pubkey, cose, key, swCose, swAuthority, keyAuthority, root, -, -, -, -, -, hlater,
      hopen⟩ :=
    minted_anchors_on_file (documented_rootX509 _) documented_sampleCerts distinct_sampleArgs
      (fun _ => rfl) (reachable_sampleRun onlyKilled_sampleEvents) hs (documented_sampleHsm _ _)
      (fun _ _ => rfl) hmint
  obtain ⟨⟨f, cert, hf, hcert, hkey⟩, mode, hroot⟩ := hlater _ reachable_sampleRestart
  obtain ⟨ks, hks, hprovisions⟩ := hopen (sampleOnboard Suit.framed (.ofDigests []) ()) () rfl
  obtain rfl : root = [2] := by
    have hfile : ((sampleRun (sampleEvents ++ sampleRestart)).files
        (sampleArgs.cert .delegation)).map (·.bytes) = some [2] := by
      decide +kernel
    rw [hroot] at hfile
    exact Option.some.inj hfile
  have hslot : "key-authority" ∈ ks.slots.map (·.keyId) := by
    rw [hprovisions.roles]
    decide
  obtain ⟨slot, hslot, hid⟩ := List.mem_map.mp hslot
  have hanchor : slot.anchorPublicKey = some keyAuthority.toList :=
    hprovisions.authority SampleRole.keyAuthority (mem_mandatoryRoles_sampleHsm _ _ _) rfl
      (by simp [sampleHsm, sampleSchema]) (by simp [sampleHsm, sampleSchema]) slot hslot hid
  exact ⟨s, ks, slot, f, cert, mode, hs, hmint, hks, hslot, hid, hf, hcert,
    hanchor.trans hkey.symm, hroot, hprovisions.trustAnchors⟩

end Deployment

end IdentityTower
