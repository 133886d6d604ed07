import SumoProvision.Orchestrator.Convergence
import SumoProvision.SoftwareTower.ContentIntegrity

/-!
# The content of a push

What the orchestrator pushes has come a long way: an upload is compressed, encrypted under a key of
its own and stored under the hash of the ciphertext; a release names the plaintext; the tower wraps
the content key to the device and signs a manifest that names the ciphertext; the orchestrator reads
the manifest, fetches the ciphertext and puts it next to the envelope. This module joins the ends.

The device is outside of the development: `Receiver` is what it does with an envelope and a payload.
`pushed_content_installs` says that every payload of a plan installs, and yields the content that
the release names, in every interleaving of publish calls; `plan_succeeds_iff_answer` that no
payload is missing.
-/

open Wire

namespace SoftwareTower

variable {ι : Type} [DecidableEq ι]

/-- Index entries of the first store are still there in what an interleaving makes of it, with their
blobs. -/
theorem blob_of_index {codec : Codec} {sha : Sha256} {calls : ι → Upload}
    (hsha : CiphersCollisionFree codec sha calls) (schedule later : List (Sys.Turn storeOps ι))
    {inner : ContentHash} {e : ArtifactEntry} :
    let d := schedule.foldl (Sys.next contentStore) (startPublishing codec sha calls)
    d.shared.index inner = some e →
      ∃ b z plain, (later.foldl (Sys.next contentStore) d).shared.files (.blob e.outer) = some b ∧
        digest sha b = e.outer ∧ codec.decrypt e.cek e.nonce b = some z ∧
        codec.decompress z = some plain ∧ digest sha plain = inner ∧ plain.length = e.size := by
  intro d he
  have hd := ((owned_startPublishing hsha).run (allMeet_anyOp schedule _)).1
  have hintact := hd.1.intact
  have hkept := (hd.run (allMeet_anyOp later d)).2
  obtain ⟨hinner, b, z, plain, hb, hz, hplain, hdigest, hsize⟩ := hintact.entries inner e he
  exact ⟨b, z, plain, hkept.blobs _ _ hb, hintact.blobs _ _ hb, hz, hplain, hinner ▸ hdigest, hsize⟩

end SoftwareTower

namespace Orchestrator

open SoftwareTower IdentityTower

/-! ## The device -/

/-- The receiving side of SUIT envelopes: what a device reads of a manifest component beside its id,
uri and digest, and how it unwraps the content key with its private key. -/
structure Receiver (suit : Suit) where
  SecretKey : Type
  publicKey : SecretKey → suit.Key
  encryptionInfo : suit.Envelope → ℕ → Option suit.EncInfo
  imageSize : suit.Envelope → ℕ → Option ℕ
  unwrap : SecretKey → suit.EncInfo → Option (Vector UInt8 cekLen × Vector UInt8 nonceLen)
  /-- What is wrapped to a public key is unwrapped with its private key. -/
  unwrap_rewrap : ∀ {secret cek iv kid info},
    suit.rewrapCekEcdh cek iv ⟨publicKey secret, kid⟩ = .ok info →
      unwrap secret info = some (cek, iv)
  /-- An image manifest has the sizes and the encryption infos of its components. -/
  decode_image : ∀ {key time seq components bytes env}, (components.map (·.id)).Nodup →
    suit.buildImage key time seq components = .ok bytes → suit.decodeEnvelope bytes = .ok env →
      ∀ i (h : i < components.length),
        encryptionInfo env i = components[i].encryptionInfo ∧
          imageSize env i = some components[i].size

/-- Install a payload as the component of a manifest: unwrap the content key, decrypt, decompress,
and check size and digest. -/
def Receiver.install {suit : Suit} (recv : Receiver suit) (codec : Codec) (sha : Sha256)
    (secret : recv.SecretKey) (env : suit.Envelope) (i : ℕ) (payload : Bytes) : Option Bytes := do
  let info ← recv.encryptionInfo env i
  let (cek, iv) ← recv.unwrap secret info
  let frame ← codec.decrypt cek iv payload
  let plain ← codec.decompress frame
  if suit.imageDigest env i = some (digest sha plain).bytes.toList ∧
      recv.imageSize env i = some plain.length then
    return plain
  else none

/-! ## The manifest of a component -/

section Manifest

variable {suit : Suit} {signer : Signer suit} {index : ContentHash → Option ArtifactEntry}
  {req : L1Recipient}

/-- The manifest component of a release part, with everything the device needs of it. -/
structure WrappedSpecOf (index : ContentHash → Option ArtifactEntry)
    (recipient : Recipient suit.Key) (path : String) (p : Part)
    (spec : ComponentSpec suit.EncInfo) (entry : ArtifactEntry) : Prop where
  indexed : index p.content = some entry
  id : spec.id = [path, p.id]
  digest : spec.digest = p.content.bytes.toList
  size : spec.size = entry.size
  uri : spec.uri = entry.outer.toPrefixed
  wrapped : ∃ info, spec.encryptionInfo = some info ∧
    suit.rewrapCekEcdh entry.cek entry.nonce recipient = .ok info

/-- The L2 of an enabled component wraps the content key of each part to the key of the request. -/
theorem wrappedSpecs_of_buildL2 {path : String} {entity : Entity} {l2 : Bytes}
    (henabled : entity.disabled = false) (h : buildL2 signer index req path entity = .ok l2) :
    ∃ key specs, suit.fromCoseKeyBytes req.devicePubkey = .ok key ∧
      List.Forall₂ (fun p spec => ∃ entry, WrappedSpecOf index ⟨key, Text.utf8 req.deviceId⟩ path p
        spec entry) entity.parts specs ∧
      suit.buildImage signer.key signer.now req.seq specs = .ok l2 := by
  simp only [buildL2, henabled, Bool.false_eq_true, if_false, Signer.buildEnvelope,
    Except.bind_eq_ok_iff, Except.mapError_eq_ok_iff] at h
  obtain ⟨eparts, heparts, key, hkey, specs, hspecs, hbuild⟩ := h
  refine ⟨key, specs, hkey, (Except.forall₂_of_mapM_mapM heparts hspecs).imp ?_, hbuild⟩
  rintro p spec ⟨e, he, hspec⟩
  unfold envelopePart at he
  split at he
  · cases he
  · rename_i entry hentry
    cases he
    simp only [Signer.componentSpec, Except.bind_eq_ok_iff, Except.pure_eq_ok_iff] at hspec
    obtain ⟨info, hinfo, rfl⟩ := hspec
    exact ⟨entry, hentry, rfl, rfl, rfl, rfl, info, rfl, hinfo⟩

/-- The L2 of a component decodes. -/
theorem exists_decode_of_buildL2 {path : String} {entity : Entity} {l2 : Bytes}
    (hids : (entity.parts.map (·.id)).Nodup)
    (h : buildL2 signer index req path entity = .ok l2) :
    ∃ env, suit.decodeEnvelope l2 = .ok env := by
  cases hdisabled : entity.disabled with
  | true =>
    have hbuild : signer.buildDisableEnvelope path req.seq = .ok l2 := by
      simpa [buildL2, hdisabled] using h
    obtain ⟨env, hdecode, -⟩ := suit.decode_disable hbuild
    exact ⟨env, hdecode⟩
  | false =>
    obtain ⟨specs, hspecs, hbuild⟩ := buildImage_of_buildL2 hdisabled h
    obtain ⟨env, hdecode, -⟩ :=
      suit.decode_image (nodup_spec_ids hids (hspecs.imp fun p spec hspec => hspec.1)) hbuild
    exact ⟨env, hdecode⟩

/-- The payloads of a slice, if there are any, are the blobs of all parts in order. -/
theorem payloads_of_sliceOf {blobs : BlobSource} {path : String} {des : Entity} {s : L1Component}
    {observed : Tree} {ps : List Payload} (hof : SliceOf signer index req (path, des) s)
    (h : payloads blobs s observed = .ok ps) :
    ps = [] ∨ (des.disabled = false ∧ List.Forall₂ (fun p q => q.uri = "#" ++ p.id ∧
      ∃ entry, index p.content = some entry ∧ blobs entry.outer = .ok q.bytes) des.parts ps) := by
  obtain ⟨-, -, hparts⟩ := hof
  unfold payloads at h
  split at h
  · cases h
    exact .inl rfl
  · have hpayloads := Except.mapM_eq_ok_iff.mp h
    cases hdisabled : des.disabled with
    | true =>
      simp only [hdisabled, if_true] at hparts
      rw [hparts] at hpayloads
      cases hpayloads
      exact .inl rfl
    | false =>
      simp only [hdisabled, Bool.false_eq_true, if_false] at hparts
      -- The parts of the slice are between those of the target and the payloads, one for one.
      refine .inr ⟨rfl, ?_⟩
      refine List.forall₂_iff_get.mpr
        ⟨hparts.length_eq.trans hpayloads.length_eq, fun i hi hi' => ?_⟩
      obtain ⟨hid, -, entry, hentry, houter⟩ := hparts.get hi (hparts.length_eq ▸ hi)
      have hpayload := hpayloads.get (hparts.length_eq ▸ hi) hi'
      simp only [payload, Except.bind_eq_ok_iff, Except.pure_eq_ok_iff] at hpayload
      obtain ⟨bytes, hbytes, heq⟩ := hpayload
      rw [houter] at hbytes
      rw [← heq]
      exact ⟨by rw [hid], entry, hentry, hbytes⟩

end Manifest

/-! ## The device key -/

/-- Bytes that are written in hexadecimal are read back. -/
theorem decode_trim_hexEncode (bytes : Bytes) :
    Hex.decode (Text.trim (hexEncode bytes)).toList = some bytes := by
  have hdigits : ∀ n < 16, Text.isWhitespace (Hex.digit n) = false := by decide
  have htrim : Text.trim (hexEncode bytes) = hexEncode bytes := by
    refine Text.trim_eq_self fun c hc => ?_
    rw [hexEncode, String.toList_ofList] at hc
    obtain ⟨n, hn, rfl⟩ := Hex.exists_digit_of_mem_encode hc
    exact hdigits n hn
  rw [htrim, hexEncode, String.toList_ofList, Hex.decode_encode]

theorem decodeDevicePubkey_hexEncode {suit : Suit} {bytes : Bytes} {key : suit.Key}
    (h : suit.fromCoseKeyBytes bytes = .ok key) :
    decodeDevicePubkey suit (hexEncode bytes) = .ok bytes := by
  simp only [decodeDevicePubkey, decode_trim_hexEncode, h]

/-! ## Framed envelopes with keys -/

/-- A manifest component as frames: the id, the uri, the digest, the size in unary and the
encryption info. -/
def componentFields (c : ComponentSpec Bytes) : List Bytes :=
  [frames (c.id.map Text.utf8), Text.utf8 c.uri, c.digest, .replicate c.size 0,
    frames c.encryptionInfo.toList]

/-- Framed envelopes with all fields of their components. -/
def Suit.framedKeys : Suit :=
  { Suit.framed with
    EncInfo := Bytes
    rewrapCekEcdh := fun cek iv _ => .ok (cek.toList ++ iv.toList)
    buildImage := fun _ _ _ components =>
      .ok <| 0 :: frames (components.map fun c => frames (componentFields c))
    decode_image := by
      rintro _ _ _ components _ - ⟨⟩
      refine ⟨_, rfl, rfl, ?_, ?_⟩
      · simp [Suit.framed, unframes_frames]
      · intro i hi
        simp [Suit.framed, unframes_frames, hi, componentFields] }

/-- A key and an IV, one behind the other. -/
def splitKey (info : Bytes) : Option (Vector UInt8 cekLen × Vector UInt8 nonceLen) :=
  if h : info.length = cekLen + nonceLen then
    some (⟨(info.take cekLen).toArray, by simp; omega⟩,
      ⟨(info.drop cekLen).toArray, by simp; omega⟩)
  else none

theorem splitKey_append (cek : Vector UInt8 cekLen) (iv : Vector UInt8 nonceLen) :
    splitKey (cek.toList ++ iv.toList) = some (cek, iv) := by
  have htake : (cek.toList ++ iv.toList).take cekLen = cek.toList := List.take_left' (by simp)
  have hdrop : (cek.toList ++ iv.toList).drop cekLen = iv.toList := List.drop_left' (by simp)
  have hlength : (cek.toList ++ iv.toList).length = cekLen + nonceLen := by simp
  rw [splitKey, dif_pos hlength]
  simp only [htake, hdrop]
  rfl

/-- The encryption info of a component. -/
def componentInfo (components : List Bytes) (i : ℕ) : Option Bytes :=
  (components[i]?.bind fun c => (unframes c)[4]?).bind fun c => (unframes c).head?

/-- The size of a component. -/
def componentSize (components : List Bytes) (i : ℕ) : Option ℕ :=
  (components[i]?.bind fun c => (unframes c)[3]?).map List.length

theorem of_componentFields (components : List (ComponentSpec Bytes)) (i : ℕ)
    (hi : i < components.length) :
    let image := unframes (frames (components.map fun c => frames (componentFields c)))
    componentInfo image i = components[i].encryptionInfo ∧
      componentSize image i = some components[i].size := by
  intro image
  have hfields : image[i]? = some (frames (componentFields components[i])) := by
    simp [image, unframes_frames, hi]
  simp only [componentInfo, componentSize, hfields, Option.bind_some, unframes_frames,
    componentFields]
  exact ⟨by cases components[i].encryptionInfo <;> simp [unframes_frames], by simp⟩

/-- The device of framed envelopes. -/
def framedReceiver : Receiver Suit.framedKeys where
  SecretKey := Unit
  publicKey := id
  encryptionInfo env i := componentInfo env.2 i
  imageSize env i := componentSize env.2 i
  unwrap _ := splitKey
  unwrap_rewrap := by
    rintro _ cek iv _ _ ⟨⟩
    exact splitKey_append cek iv
  decode_image := by
    rintro _ _ _ components _ _ - ⟨⟩ ⟨⟩ i hi
    exact of_componentFields components i hi

/-- One of the two sample uploads is cut off, and the other one completes. -/
def pushedSchedule : List (Sys.Turn storeOps Bool) :=
  .replicate 4 (true, none) ++ [(true, some (.torn 5 .dropped)), (true, none)] ++
    .replicate 12 (false, none)

/-- The content store after the two uploads. -/
def pushedStore : Publishing Bool :=
  pushedSchedule.foldl (Sys.next contentStore) (startPublishing sampleCodec sampleSha sampleUploads)

/-- The tower over this store, with the release of `vm1`. -/
def pushedTower : Tower Suit.framedKeys Unit where
  signer := ⟨(), 0⟩
  signerPubkey := [1]
  index := pushedStore.shared.index
  blobs outer := pushedStore.shared.files (.blob outer)
  server := rolloutServer
  faults := []
  clientError := fun _ => "error sending request"

/-- The tower before the upload of the kernel is indexed. -/
def earlyTower : Tower Suit.framedKeys Unit :=
  { pushedTower with index := fun _ => none }

/-! ## From the upload to the device -/

section Push

variable {ι : Type} [DecidableEq ι] {suit : Suit} {Value : Type} {codec : Codec} {sha : Sha256}
  {calls : ι → Upload} {order : RowOrder} {tower : Tower suit Value} {rig : Except Error Tree}
  {getDevice : String → Except Error (Option Device)} {target : ChannelTarget} {deviceId : String}
  {only : Option (List String)}

/-- The index entries that the tower reads are in the content store by the state `d`, and each blob
is fetched from some state after it. -/
structure ServedFrom (tower : Tower suit Value) (d : Publishing ι) : Prop where
  index : ∀ inner e, tower.index inner = some e → d.shared.index inner = some e
  blobs : ∀ outer, ∃ later : List (Sys.Turn storeOps ι),
    tower.blobs outer = (later.foldl (Sys.next contentStore) d).shared.files (.blob outer)

theorem servedFrom_pushedTower : ServedFrom pushedTower pushedStore := by
  -- The store is not to be evaluated.
  rw [pushedTower]
  generalize pushedStore = d
  exact ⟨fun _ _ h => h, fun _ => ⟨[], rfl⟩⟩

/-- The blob of an index entry that the tower has read. -/
theorem ServedFrom.blob_of_index (hsha : CiphersCollisionFree codec sha calls)
    (schedule : List (Sys.Turn storeOps ι)) {inner : ContentHash} {e : ArtifactEntry}
    (h : ServedFrom tower
      (schedule.foldl (Sys.next contentStore) (startPublishing codec sha calls)))
    (he : tower.index inner = some e) :
    ∃ b z plain, tower.blobs e.outer = some b ∧ digest sha b = e.outer ∧
      codec.decrypt e.cek e.nonce b = some z ∧ codec.decompress z = some plain ∧
      digest sha plain = inner ∧ plain.length = e.size := by
  obtain ⟨later, hlater⟩ := h.blobs e.outer
  rw [hlater]
  exact SoftwareTower.blob_of_index hsha schedule later (h.index inner e he)

/-- A payload that is the blob of an index entry installs as the part of the manifest that was
wrapped for this entry. -/
theorem install_eq_some (recv : Receiver suit) {secret : recv.SecretKey} {env : suit.Envelope}
    {i : ℕ} {blob z plain : Bytes} {e : ArtifactEntry} {kid : Bytes} {info : suit.EncInfo}
    (hinfo : recv.encryptionInfo env i = some info)
    (hwrapped : suit.rewrapCekEcdh e.cek e.nonce ⟨recv.publicKey secret, kid⟩ = .ok info)
    (hz : codec.decrypt e.cek e.nonce blob = some z) (hplain : codec.decompress z = some plain)
    (hdigest : suit.imageDigest env i = some (digest sha plain).bytes.toList)
    (hsize : recv.imageSize env i = some plain.length) :
    recv.install codec sha secret env i blob = some plain := by
  simp [Receiver.install, hinfo, recv.unwrap_rewrap hwrapped, hz, hplain, hdigest, hsize]

/-- What the device makes of a job: its envelope decodes, and each payload that comes with it
installs as the part of the target with its name, and yields the content of this part. -/
def InstallsAs (codec : Codec) (sha : Sha256) (recv : Receiver suit) (secret : recv.SecretKey)
    (des : Entity) (job : FlashJob) : Prop :=
  ∃ env, suit.decodeEnvelope job.envelope = .ok env ∧
    (job.payloads = [] ∨ job.payloads.length = des.parts.length) ∧
    ∀ (i : ℕ) q, job.payloads[i]? = some q → ∃ p plain, des.parts[i]? = some p ∧
      q.uri = "#" ++ p.id ∧ suit.uri env i = some (digest sha q.bytes).toPrefixed ∧
      recv.install codec sha secret env i q.bytes = some plain ∧ digest sha plain = p.content

/-- The job of a slice installs. -/
theorem installsAs_of_slice (recv : Receiver suit) {secret : recv.SecretKey}
    {recipient : L1Recipient} (hkey : suit.fromCoseKeyBytes recipient.devicePubkey =
      .ok (recv.publicKey secret)) {des : Entity} {s : L1Component} {observed : Tree}
    {job : FlashJob} (hids : (des.parts.map (·.id)).Nodup)
    (hof : SliceOf tower.signer tower.index recipient (job.componentId, des) s)
    (henvelope : s.envelope = job.envelope)
    (hpayloads : payloads (softwareClient tower.getBlob) s observed = .ok job.payloads)
    (hblobs : ∀ inner e, tower.index inner = some e → ∃ b z plain, tower.blobs e.outer = some b ∧
      digest sha b = e.outer ∧ codec.decrypt e.cek e.nonce b = some z ∧
      codec.decompress z = some plain ∧ digest sha plain = inner ∧ plain.length = e.size) :
    InstallsAs codec sha recv secret des job := by
  have hbuild := hof.2.1
  rw [henvelope] at hbuild
  rcases payloads_of_sliceOf hof hpayloads with hnil | ⟨henabled, hpairs⟩
  · obtain ⟨env, hdecode⟩ := exists_decode_of_buildL2 hids hbuild
    exact ⟨env, hdecode, .inl hnil, by simp [hnil]⟩
  · obtain ⟨key, specs, hkey', hspecs, himage⟩ := wrappedSpecs_of_buildL2 henabled hbuild
    obtain rfl : recv.publicKey secret = key := Except.ok.inj (hkey.symm.trans hkey')
    have hnodup : (specs.map (·.id)).Nodup :=
      nodup_spec_ids hids (hspecs.imp fun p spec ⟨_, hspec⟩ => hspec.id)
    obtain ⟨env, hdecode, -, -, hmanifest⟩ := suit.decode_image hnodup himage
    refine ⟨env, hdecode, .inr hpairs.length_eq.symm, fun i q hq => ?_⟩
    -- Payload, part and manifest component with the number `i` belong together.
    obtain ⟨hiq, rfl⟩ := List.getElem?_eq_some_iff.mp hq
    have hip : i < des.parts.length := hpairs.length_eq ▸ hiq
    have his : i < specs.length := hspecs.length_eq ▸ hip
    obtain ⟨hname, entry, hentry, hblob⟩ := hpairs.get hip hiq
    obtain ⟨entry', hspec⟩ := hspecs.get hip his
    rw [List.get_eq_getElem] at hentry hname hblob
    rw [List.get_eq_getElem, List.get_eq_getElem] at hspec
    obtain rfl : entry' = entry := Option.some.inj (hspec.indexed.symm.trans hentry)
    obtain ⟨b, z, plain, hb, hfetched, hz, hplain, hdigest, hsize⟩ := hblobs _ _ hentry
    -- The blob that was fetched is the one that is stored.
    obtain rfl : b = job.payloads[i].bytes :=
      Option.some.inj (hb.symm.trans (Tower.softwareClient_eq_ok_iff.mp hblob).2)
    obtain ⟨-, huri, himageDigest⟩ := hmanifest i his
    obtain ⟨hinfo, himageSize⟩ := recv.decode_image hnodup himage hdecode i his
    obtain ⟨info, hspecInfo, hwrapped⟩ := hspec.wrapped
    refine ⟨des.parts[i], plain, List.getElem?_eq_getElem hip, hname, ?_, ?_, hdigest⟩
    · rw [huri, hspec.uri, hfetched]
    · refine install_eq_some recv (hinfo.trans hspecInfo) hwrapped hz hplain ?_ ?_
      · rw [himageDigest, hspec.digest, hdigest]
      · rw [himageSize, hspec.size, hsize]

/-- Every blob that is fetched for the slices of an answer is there. -/
theorem exists_blob_of_mem_fetched {recipient : L1Recipient} {tree observed : Tree}
    {slices : List L1Component}
    (hslices : ∀ s ∈ slices, ∃ des, tree.get? s.component = some des ∧
      SliceOf tower.signer tower.index recipient (s.component, des) s)
    (hblobs : ∀ inner e, tower.index inner = some e → ∃ b, tower.blobs e.outer = some b)
    {outer : ContentHash} (h : outer ∈ fetched slices observed only) :
    ∃ b, tower.blobs outer = some b := by
  obtain ⟨s, hs, houter⟩ := List.mem_flatMap.mp h
  obtain ⟨l, hl, rfl⟩ := List.mem_map.mp houter
  obtain ⟨des, -, -, -, hparts⟩ := hslices s (List.mem_of_mem_filter hs)
  split at hparts
  · rw [hparts] at hl
    cases hl
  · -- The part comes from an index entry, and the blob of this entry is served.
    obtain ⟨p, -, -, -, entry, hentry, houter⟩ := hparts.exists_left hl
    rw [houter]
    exact hblobs _ _ hentry

/-- The jobs of a plan install, if its recipient is the device. -/
theorem PlanOf.installsAs (recv : Receiver suit) {secret : recv.SecretKey}
    {recipient : L1Recipient} {tree observed : Tree} {response : L1Response} {jobs : List FlashJob}
    (hof : PlanOf sha order tower getDevice target deviceId only observed jobs recipient tree
      response)
    (hkey : suit.fromCoseKeyBytes recipient.devicePubkey = .ok (recv.publicKey secret))
    (hsha : CiphersCollisionFree codec sha calls) (schedule : List (Sys.Turn storeOps ι))
    (hserved : ServedFrom tower
      (schedule.foldl (Sys.next contentStore) (startPublishing codec sha calls))) :
    ∃ v, target.selector.release tower.server.committed = some v ∧
      resolve order tower.server.committed.releases v = .ok tree ∧
      ∀ job ∈ jobs, ∃ des, tree.get? job.componentId = some des ∧
        InstallsAs codec sha recv secret des job := by
  obtain ⟨v, hrelease, hv⟩ := hof.exists_release
  have hids := distinctIds_of_resolve hv
  refine ⟨v, hrelease, hv, fun job hjob => ?_⟩
  obtain ⟨s, des, hdes, hslice, henvelope, hpayloads⟩ :=
    slice_of_mem_jobs hids hof.assembled hof.dispatched hjob
  exact ⟨des, hdes, installsAs_of_slice recv hkey (hids _ _ hdes) hslice henvelope hpayloads
    fun _ _ => hserved.blob_of_index hsha schedule⟩

/-- Let publish calls interleave in any way, any of their operations fail or be cut off, and the
tower read the index and the blobs while they run. Let the device key that Tower 1 has be the public
key of the device. A plan that succeeds then is for the tree of the release that the target names,
and each of its jobs installs: every payload is unwrapped, decrypted and decompressed to the content
of its part, with the digest and the size of the manifest. -/
theorem pushed_content_installs (recv : Receiver suit) (secret : recv.SecretKey)
    (hempty : ∀ env, suit.decodeEnvelope [] ≠ .ok env)
    (hsha : CiphersCollisionFree codec sha calls) (schedule : List (Sys.Turn storeOps ι))
    (hserved : ServedFrom tower
      (schedule.foldl (Sys.next contentStore) (startPublishing codec sha calls)))
    (pubkey : String) (hdevice : devicePubkey getDevice deviceId = .ok pubkey) (cose : Bytes)
    (hcose : decodeDevicePubkey suit pubkey = .ok cose)
    (hkey : suit.fromCoseKeyBytes cose = .ok (recv.publicKey secret)) (jobs : List FlashJob)
    (trustAnchor : Bytes) (observed : Tree)
    (hplan : l1FlashPlan suit rig getDevice (tower.hub sha order) target deviceId only =
      .ok (jobs, trustAnchor, observed)) :
    ∃ v tree, target.selector.release tower.server.committed = some v ∧
      resolve order tower.server.committed.releases v = .ok tree ∧
      ∀ job ∈ jobs, ∃ des, tree.get? job.componentId = some des ∧
        InstallsAs codec sha recv secret des job := by
  obtain ⟨-, recipient, tree, response, hof⟩ := of_l1FlashPlan_eq_ok hempty hplan
  -- The key of the request is the one that Tower 1 has.
  have hrecipient : suit.fromCoseKeyBytes recipient.devicePubkey = .ok (recv.publicKey secret) := by
    obtain ⟨pubkey', hpubkey, hdecoded⟩ := hof.key
    obtain rfl : pubkey = pubkey' := Except.ok.inj (hdevice.symm.trans hpubkey)
    obtain rfl : cose = recipient.devicePubkey := Except.ok.inj (hcose.symm.trans hdecoded)
    exact hkey
  obtain ⟨v, hrelease, hv, hjobs⟩ := hof.installsAs recv hrecipient hsha schedule hserved
  exact ⟨v, tree, hrelease, hv, hjobs⟩

/-- The sample is planned for a vehicle with an older kernel. -/
def planOver (tower : Tower Suit.framedKeys Unit) :
    Except PlanError (List FlashJob × Bytes × Tree) :=
  l1FlashPlan Suit.framedKeys (.ok (vehicleWith oldKernel))
    (fun id => .ok (some ⟨id, none, .enrolled, some (hexEncode [0xa1, 0xb2])⟩))
    (tower.hub sampleSha .insertion) rolloutTarget "device-1" none

/-- The kernel of the sample is pushed, and installs. -/
theorem pushed_content_installs_kernel :
    ∃ jobs trustAnchor observed, planOver pushedTower = .ok (jobs, trustAnchor, observed) ∧
      jobs.map (·.componentId) = ["vm1"] ∧ jobs.map (·.payloads.length) = [1] ∧
      ∃ tree, resolve .insertion rolloutServer.committed.releases 1 = .ok tree ∧
        ∀ job ∈ jobs, ∃ des, tree.get? job.componentId = some des ∧
          InstallsAs sampleCodec sampleSha framedReceiver () des job := by
  have hjobs : ((planOver pushedTower).map fun plan => (plan.1.map (·.componentId),
      plan.1.map (·.payloads.length))) = .ok (["vm1"], [1]) := by decide +kernel
  obtain ⟨⟨jobs, trustAnchor, observed⟩, hplan, hshape⟩ := Except.map_eq_ok_iff.mp hjobs
  obtain ⟨hnames, hpayloads⟩ := Prod.mk.inj hshape
  obtain ⟨v, tree, hrelease, htree, hinstalls⟩ := pushed_content_installs framedReceiver ()
    (by rintro env ⟨⟩) ciphersCollisionFree_sample pushedSchedule servedFrom_pushedTower
    (hexEncode [0xa1, 0xb2]) rfl [0xa1, 0xb2] (decodeDevicePubkey_hexEncode rfl) rfl jobs
    trustAnchor observed hplan
  obtain rfl : v = 1 := TargetSelector.release_of_pinned rfl hrelease
  exact ⟨jobs, trustAnchor, observed, hplan, hnames, hpayloads, tree, htree, hinstalls⟩

/-- The plan of a target that the tower has answered for. -/
theorem l1FlashPlan_of_answer (hub : L1Hub) {observed : Tree} {pubkey : String}
    {body : Client.L1Req} {l1 : Bytes} (hrig : rig = .ok observed)
    (hpubkey : devicePubkey getDevice deviceId = .ok pubkey)
    (hbody : l1Req target pubkey deviceId observed = .ok body) (hl1 : hub.l1 body = .ok l1) :
    l1FlashPlan suit rig getDevice hub target deviceId only =
      if l1.isEmpty then .ok ([], [], observed)
      else (do
        let components ← fanoutL1 suit l1
        let jobs ← l1Jobs (softwareClient hub.getBlob) components observed only
        let trustAnchor ← hub.signerPubkey
        return (jobs, trustAnchor, observed)).mapError PlanError.step := by
  simp only [l1FlashPlan, hrig, hpubkey, hbody, hl1, Except.mapError_ok, Except.ok_bind]
  split
  · rfl
  · cases fanoutL1 suit l1 with
    | error e => rfl
    | ok components =>
      simp only [Except.ok_bind, Except.mapError_ok]
      cases l1Jobs (softwareClient hub.getBlob) components observed only with
      | error e => rfl
      | ok jobs =>
        simp only [Except.ok_bind, Except.mapError_ok]
        cases hub.signerPubkey <;> rfl

/-- No request fails that the plan makes for an answer: there is nothing to do, or the blobs of its
jobs and the signer key are fetched. -/
def Answers (tower : Tower suit Value) (observed : Tree) (only : Option (List String))
    (l1 : Bytes) : Prop :=
  l1 = [] ∨ tower.signerFault = none ∧ ∀ components, fanoutL1 suit l1 = .ok components →
    ∀ outer ∈ fetched components observed only, tower.blobFaults outer = none

/-- Under the same assumptions on the content store, a plan succeeds iff the rig is read, Tower 1
has a key of the device, the target can be asked for, the tower answers, and no request for a blob
or for the signer key fails. So an answer can always be taken apart, and no blob that it names is
missing. -/
theorem plan_succeeds_iff_answer (hsha : CiphersCollisionFree codec sha calls)
    (schedule : List (Sys.Turn storeOps ι))
    (hserved : ServedFrom tower
      (schedule.foldl (Sys.next contentStore) (startPublishing codec sha calls)))
    (observed : Tree) :
    (∃ jobs trustAnchor, l1FlashPlan suit rig getDevice (tower.hub sha order) target deviceId only =
      .ok (jobs, trustAnchor, observed)) ↔
    rig = .ok observed ∧ ∃ pubkey body l1, devicePubkey getDevice deviceId = .ok pubkey ∧
      l1Req target pubkey deviceId observed = .ok body ∧ tower.l1 sha order body = .ok l1 ∧
      Answers tower observed only l1 := by
  have hblobs : ∀ inner e, tower.index inner = some e → ∃ b, tower.blobs e.outer = some b := by
    intro inner e he
    obtain ⟨b, _, _, hb, -⟩ := hserved.blob_of_index hsha schedule he
    exact ⟨b, hb⟩
  constructor
  · rintro ⟨jobs, trustAnchor, h⟩
    simp only [l1FlashPlan, Except.bind_eq_ok_iff, Except.mapError_eq_ok_iff] at h
    obtain ⟨observed', hrig, pubkey, hpubkey, body, hbody, l1, hl1, hrest⟩ := h
    suffices hsame : observed' = observed ∧ Answers tower observed only l1 from
      ⟨hsame.1 ▸ hrig, pubkey, body, l1, hpubkey, hsame.1 ▸ hbody, hl1, hsame.2⟩
    split at hrest
    · rename_i hnil
      exact ⟨congrArg (·.2.2) (Except.pure_eq_ok_iff.mp hrest), .inl (List.isEmpty_iff.mp hnil)⟩
    · simp only [Except.bind_eq_ok_iff, Except.mapError_eq_ok_iff, Except.pure_eq_ok_iff] at hrest
      obtain ⟨components, hcomponents, jobs', hjobs, key, hkey, heq⟩ := hrest
      obtain rfl : observed' = observed := congrArg (·.2.2) heq
      refine ⟨rfl, .inr ⟨(Tower.getSignerPubkey_eq_ok_iff.mp hkey).1, fun components' h' => ?_⟩⟩
      obtain rfl : components = components' := Except.ok.inj (hcomponents.symm.trans h')
      intro outer houter
      obtain ⟨bytes, hbytes⟩ := exists_l1Jobs_iff.mp ⟨jobs', hjobs⟩ outer houter
      exact (Tower.softwareClient_eq_ok_iff.mp hbytes).1
  · rintro ⟨hrig, pubkey, body, l1, hpubkey, hbody, hanswer, hfetched⟩
    obtain ⟨key, tree, response, -, ⟨_, _, _, _, -, htree⟩, hassembled, rfl⟩ :=
      of_l1_eq_ok hbody hanswer
    obtain ⟨v, -, hv⟩ := exists_release_of_l1Tree htree
    rw [l1FlashPlan_of_answer (tower.hub sha order) hrig hpubkey hbody hanswer]
    split
    · exact ⟨[], [], rfl⟩
    · rename_i hbytes
      cases response with
      | noContent => exact absurd rfl hbytes
      | cbor l1 =>
        obtain ⟨slices, -, -, hslices, hfanout, -⟩ :=
          slices_of_response (distinctIds_of_resolve hv) hassembled
        obtain ⟨hsigner, hfaults⟩ := hfetched.resolve_left fun hnil => hbytes (by
          rw [hnil]
          rfl)
        -- What is fetched is there, and no request for it fails.
        obtain ⟨jobs, hjobs⟩ : ∃ jobs, l1Jobs (softwareClient tower.getBlob) slices observed only =
            .ok jobs := by
          refine exists_l1Jobs_iff.mpr fun outer houter => ?_
          obtain ⟨b, hb⟩ := exists_blob_of_mem_fetched hslices hblobs houter
          exact ⟨b, Tower.softwareClient_eq_ok_iff.mpr
            ⟨hfaults slices (hfanout l1 rfl) outer houter, hb⟩⟩
        refine ⟨jobs, tower.signerPubkey, Except.mapError_eq_ok_iff.mpr ?_⟩
        refine Except.bind_eq_ok_iff.mpr ⟨slices, hfanout l1 rfl, ?_⟩
        refine Except.bind_eq_ok_iff.mpr ⟨jobs, hjobs, ?_⟩
        exact Except.bind_eq_ok_iff.mpr
          ⟨_, Tower.getSignerPubkey_eq_ok_iff.mpr ⟨hsigner, rfl⟩, rfl⟩

/-- The tower of the sample, while the connection is lost that the signer key is fetched over. -/
def lostTower : Tower Suit.framedKeys Unit :=
  { pushedTower with signerFault := some none }

theorem l1_lostTower (body : Client.L1Req) :
    lostTower.l1 sampleSha .insertion body = pushedTower.l1 sampleSha .insertion body := by
  simp only [Tower.l1, Tower.reply, lostTower]

/-- Both towers answer for the sample, with a campaign. -/
theorem l1_pushedTower :
    ∃ body l1, l1Req rolloutTarget (hexEncode [0xa1, 0xb2]) "device-1" (vehicleWith oldKernel) =
      .ok body ∧ pushedTower.l1 sampleSha .insertion body = .ok l1 ∧
        lostTower.l1 sampleSha .insertion body = .ok l1 ∧ l1 ≠ [] := by
  have hok : (do
      let body ← l1Req rolloutTarget (hexEncode [0xa1, 0xb2]) "device-1" (vehicleWith oldKernel)
      let l1 ← pushedTower.l1 sampleSha .insertion body
      return l1.isEmpty : Except Error Bool) = .ok false := by
    decide +kernel
  obtain ⟨body, hbody, hrest⟩ := Except.bind_eq_ok_iff.mp hok
  obtain ⟨l1, hl1, hempty⟩ := Except.bind_eq_ok_iff.mp hrest
  refine ⟨body, l1, hbody, hl1, (l1_lostTower body).trans hl1, ?_⟩
  rintro rfl
  cases Except.pure_eq_ok_iff.mp hempty

/-- There is a plan for the sample, but not while the signer key cannot be fetched. -/
theorem plan_succeeds_iff_answer_kernel :
    (∃ jobs trustAnchor, planOver pushedTower = .ok (jobs, trustAnchor, vehicleWith oldKernel)) ∧
      ¬ ∃ jobs trustAnchor, planOver lostTower =
        .ok (jobs, trustAnchor, vehicleWith oldKernel) := by
  obtain ⟨body, l1, hbody, hl1, hlost, hne⟩ := l1_pushedTower
  refine ⟨(plan_succeeds_iff_answer ciphersCollisionFree_sample pushedSchedule
    servedFrom_pushedTower (vehicleWith oldKernel)).mpr
      ⟨rfl, _, body, l1, rfl, hbody, hl1, .inr ⟨rfl, fun _ _ _ _ => rfl⟩⟩, fun hplan => ?_⟩
  obtain ⟨-, pubkey, body', l1', hpubkey, hbody', hl1', hanswers⟩ :=
    (plan_succeeds_iff_answer ciphersCollisionFree_sample pushedSchedule
      ⟨fun _ _ h => h, fun _ => ⟨[], rfl⟩⟩ (vehicleWith oldKernel)).mp hplan
  obtain rfl : hexEncode [0xa1, 0xb2] = pubkey := Except.ok.inj hpubkey
  obtain rfl : body = body' := Except.ok.inj (hbody.symm.trans hbody')
  obtain rfl : l1 = l1' := Except.ok.inj (hlost.symm.trans hl1')
  obtain ⟨hsigner, -⟩ := hanswers.resolve_left hne
  cases hsigner

end Push

end Orchestrator
