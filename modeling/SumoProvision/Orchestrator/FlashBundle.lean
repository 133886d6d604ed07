import SumoProvision.Orchestrator.Preview
import SumoProvision.Orchestrator.PushedContent

/-!
# Flash bundles

`flash_bundle` is the dry half of a flash: for each component of the apply plan that ships
something, the tower builds an envelope of the shipped parts, and the bundle refers to the blob of
each. Which blobs there are the plan has asked before, and a content may be published in between.

`flash_bundle_installs` says what a bundle that succeeds is good for: every payload installs on the
device as the part of the envelope with its name, and the payloads of a component are those of all
its parts iff the plan had found every content of it.
-/

open Wire

/-! ## The endpoint -/

namespace SoftwareTower

variable {suit : Suit}

/-- One part of an envelope request. -/
structure NewEnvelopePart where
  id : String
  content : ContentHash
  deriving DecidableEq

/-- `POST /admin/envelope` body. -/
structure NewEnvelope where
  devicePubkey : String
  deviceId : String
  component : String
  parts : List NewEnvelopePart
  seq : UInt64 := 1
  deriving DecidableEq

/-- The envelope part of a requested part, with an integrated payload. -/
def newEnvelopePart (index : ContentHash → Option ArtifactEntry) (p : NewEnvelopePart) :
    Except AppError EnvelopePart :=
  match index p.content with
  | none => .error .notFound
  | some entry => .ok ⟨p.id, p.content, entry.size, entry.cek, entry.nonce, none⟩

/-- `POST /admin/envelope`. -/
def createEnvelope (signer : Signer suit) (index : ContentHash → Option ArtifactEntry)
    (req : NewEnvelope) : Except AppError Bytes := do
  let devicePubkey ← decodeDevicePubkey suit req.devicePubkey
  let parts ← req.parts.mapM (newEnvelopePart index)
  let envelope := signer.buildEnvelope devicePubkey (Text.utf8 req.deviceId) req.component parts
    req.seq.toNat
  envelope.mapError fun e => .internal (.other s!"envelope build failed: {e}")

/-- The manifest component of a requested part: its content key is wrapped to the recipient, and its
payload is integrated. -/
structure IntegratedSpecOf (recipient : Recipient suit.Key) (component : String)
    (p : NewEnvelopePart) (entry : ArtifactEntry) (spec : ComponentSpec suit.EncInfo) : Prop where
  id : spec.id = [component, p.id]
  digest : spec.digest = p.content.bytes.toList
  size : spec.size = entry.size
  uri : spec.uri = "#" ++ p.id
  wrapped : ∃ info, spec.encryptionInfo = some info ∧
    suit.rewrapCekEcdh entry.cek entry.nonce recipient = .ok info

/-- An envelope is an image of all requested parts, and each of them is indexed. -/
theorem specs_of_createEnvelope {signer : Signer suit} {index : ContentHash → Option ArtifactEntry}
    {req : NewEnvelope} {envelope : Bytes} (h : createEnvelope signer index req = .ok envelope) :
    ∃ cose key specs, decodeDevicePubkey suit req.devicePubkey = .ok cose ∧
      suit.fromCoseKeyBytes cose = .ok key ∧
      List.Forall₂ (fun p spec => ∃ entry, index p.content = some entry ∧
        IntegratedSpecOf ⟨key, Text.utf8 req.deviceId⟩ req.component p entry spec) req.parts specs ∧
      suit.buildImage signer.key signer.now req.seq.toNat specs = .ok envelope := by
  simp only [createEnvelope, Signer.buildEnvelope, Except.bind_eq_ok_iff,
    Except.mapError_eq_ok_iff] at h
  obtain ⟨cose, hcose, eparts, heparts, key, hkey, specs, hspecs, hbuild⟩ := h
  refine ⟨cose, key, specs, hcose, hkey, (Except.forall₂_of_mapM_mapM heparts hspecs).imp ?_,
    hbuild⟩
  rintro p spec ⟨e, he, hspec⟩
  unfold newEnvelopePart at he
  split at he
  · cases he
  · rename_i entry hentry
    cases he
    simp only [Signer.componentSpec, Except.bind_eq_ok_iff, Except.pure_eq_ok_iff] at hspec
    obtain ⟨info, hinfo, rfl⟩ := hspec
    exact ⟨entry, hentry, rfl, rfl, rfl, rfl, info, rfl, hinfo⟩

end SoftwareTower

namespace Orchestrator

open SoftwareTower IdentityTower

/-! ## Definitions -/

/-- Total bytes that a plan would ship. -/
def ApplyPlan.shipBytes (plan : ApplyPlan) : ℕ :=
  ((plan.components.flatMap (·.ship)).filterMap fun s => s.blob.map (·.size)).sum

/-- The shipped parts that Tower 2 cannot serve. -/
def ApplyPlan.missing (plan : ApplyPlan) : List (String × String) :=
  plan.components.flatMap fun c =>
    (c.ship.filter fun s => s.blob.isNone).map fun s => (c.entity, s.part)

/-- A payload to upload alongside an envelope. -/
structure PayloadRef where
  uri : String
  outer : ContentHash
  size : ℕ
  deriving DecidableEq

/-- One component's envelope, as its length, and its payloads. -/
structure ComponentFlash where
  entity : String
  envelopeBytes : ℕ
  payloads : List PayloadRef
  deriving DecidableEq

/-- What would be uploaded for a device. -/
structure FlashBundle where
  channel : String
  device : String
  components : List ComponentFlash
  deriving DecidableEq

/-- The request for the envelope of a component. -/
def ComponentApply.newEnvelope (c : ComponentApply) (pubkey deviceId : String) : NewEnvelope where
  devicePubkey := pubkey
  deviceId
  component := c.entity
  parts := c.ship.map fun s => ⟨s.part, s.content⟩

/-- The payloads of the parts that have a blob. -/
def ComponentApply.payloads (c : ComponentApply) : List PayloadRef :=
  c.ship.filterMap fun s => s.blob.map fun b => ⟨"#" ++ s.part, b.outer, b.size⟩

/-- The bundle of one component. -/
def bundleComponent (buildEnvelope : NewEnvelope → Except Error Bytes) (pubkey deviceId : String)
    (c : ComponentApply) : Except Error ComponentFlash := do
  let envelope ← buildEnvelope (c.newEnvelope pubkey deviceId)
  return ⟨c.entity, envelope.length, c.payloads⟩

/-- Assemble the bundle that brings the rig to the desired state of a target. -/
def flashBundle (rig : Except Error Tree) (hub : Hub)
    (buildEnvelope : NewEnvelope → Except Error Bytes)
    (getDevice : String → Except Error (Option Device)) (target : ChannelTarget)
    (deviceId : String) (only : Option (List String)) : Except PlanError FlashBundle := do
  let plan ← (applyPlan rig hub target only).mapError .step
  let pubkey ← devicePubkey getDevice deviceId
  let components ← ((plan.components.filter fun c => !c.ship.isEmpty).mapM
    (bundleComponent buildEnvelope pubkey deviceId)).mapError .step
  return ⟨target.channel, deviceId, components⟩

/-- `SoftwareClient::build_envelope`. -/
def Tower.buildEnvelope {suit : Suit} {Value : Type} (tower : Tower suit Value)
    (req : NewEnvelope) : Except Error Bytes :=
  (createEnvelope tower.signer tower.index req).mapError fun e =>
    .client (tower.clientError (some e.status))

/-! ## What a plan ships -/

section Ships

variable {hub : Hub}

/-- A planned part that ships, with the blob that the hub says its content has. -/
def Shipped (hub : Hub) (p : PlannedPart) (s : ShipPart) : Prop :=
  ∃ found, hub.artifactExists p.content = .ok found ∧
    s = ⟨p.part, p.kind, p.content, found.map fun a => ⟨a.outer, a.size⟩⟩

/-- The loop over planned parts ships those that are to be shipped, in order. -/
theorem shipped_of_foldlM {parts : List PlannedPart} {acc out : List ShipPart × ℕ}
    (h : parts.foldlM (shipAndReuse hub) acc = .ok out) :
    ∃ ship, out.1 = acc.1 ++ ship ∧
      List.Forall₂ (Shipped hub) (parts.filter (·.plan = .ship)) ship := by
  induction parts generalizing acc with
  | nil =>
    obtain rfl : acc = out := by simpa using h
    exact ⟨[], by simp, .nil⟩
  | cons p parts ih =>
    rw [List.foldlM_cons, Except.bind_eq_ok_iff] at h
    obtain ⟨mid, hmid, hrest⟩ := h
    obtain ⟨ship, hout, hships⟩ := ih hrest
    cases hp : p.plan with
    | reuse =>
      simp only [shipAndReuse, hp] at hmid
      obtain rfl := Except.ok.inj hmid
      exact ⟨ship, hout, by simpa [hp] using hships⟩
    | ship =>
      simp only [shipAndReuse, hp, Except.bind_eq_ok_iff] at hmid
      obtain ⟨found, hfound, hmid⟩ := hmid
      obtain rfl := Except.pure_eq_ok_iff.mp hmid
      refine ⟨_ :: ship, by simpa using hout, ?_⟩
      rw [List.filter_cons_of_pos (by simp [hp])]
      exact .cons ⟨found, hfound, rfl⟩ hships

/-- The components of a plan are desired ones, in order, and each ships its planned parts. -/
theorem shipped_of_planComponents {observed : Tree} {plan : FlashPlan}
    {only : Option (List String)} {entries : List (String × Entity)} {out : List ComponentApply}
    (h : planComponents hub observed plan only entries = .ok out) :
    (out.map (·.entity)).Sublist (entries.map Prod.fst) ∧ ∀ c ∈ out,
      List.Forall₂ (Shipped hub)
        ((plan.parts.filter (·.entity = c.entity)).filter (·.plan = .ship)) c.ship := by
  induction entries generalizing out with
  | nil =>
    obtain rfl := Except.ok.inj h
    simp
  | cons e entries ih =>
    obtain ⟨path, entity⟩ := e
    rw [planComponents] at h
    split at h
    · simp only [Except.bind_eq_ok_iff, Prod.exists] at h
      obtain ⟨ship, reuse, hloop, components, hcomponents, hout⟩ := h
      obtain ⟨hsub, hrest⟩ := ih hcomponents
      split at hout
      · obtain rfl := Except.pure_eq_ok_iff.mp hout
        refine ⟨hsub.cons_cons path, List.forall_mem_cons.mpr ⟨?_, hrest⟩⟩
        obtain ⟨ship', hship, hships⟩ := shipped_of_foldlM hloop
        obtain rfl : ship = ship' := hship
        exact hships
      · obtain rfl := Except.pure_eq_ok_iff.mp hout
        exact ⟨hsub.cons path, hrest⟩
    · obtain ⟨hsub, hrest⟩ := ih h
      exact ⟨hsub.cons path, hrest⟩

/-- The parts of a component that differ from what its active bank holds. -/
def changedParts (observed : Tree) (path : String) (des : Entity) : List Part :=
  des.parts.filter fun p => partPlan ((observed.get? path).getD {}).parts p = .ship

/-- A desired part that ships, with the blob that the hub says its content has. -/
def ShippedPart (hub : Hub) (p : Part) (s : ShipPart) : Prop :=
  s.part = p.id ∧ s.content = p.content ∧
    ∃ found, hub.artifactExists p.content = .ok found ∧
      s.blob = found.map fun a => ⟨a.outer, a.size⟩

/-- A plan has each desired component once, and ships of each the parts that differ. -/
theorem shipped_of_applyPlan {rig : Except Error Tree} {target : ChannelTarget}
    {only : Option (List String)} {observed desired : Tree} {plan : ApplyPlan}
    (hrig : rig = .ok observed) (hdesired : hub.desired target = .ok desired)
    (h : applyPlan rig hub target only = .ok plan) :
    (plan.components.map (·.entity)).Nodup ∧ ∀ c ∈ plan.components,
      ∃ des, desired.get? c.entity = some des ∧
        List.Forall₂ (ShippedPart hub) (changedParts observed c.entity des) c.ship := by
  simp only [applyPlan, hrig, hdesired, Except.ok_bind, Except.bind_eq_ok_iff,
    Except.pure_eq_ok_iff] at h
  obtain ⟨components, hcomponents, rfl⟩ := h
  obtain ⟨hsub, hships⟩ := shipped_of_planComponents hcomponents
  refine ⟨desired.nodup_keys_toList.sublist hsub, fun c hc => ?_⟩
  obtain ⟨⟨path, des⟩, hmem, heq⟩ := List.mem_map.mp (hsub.subset (List.mem_map_of_mem hc))
  obtain rfl : path = c.entity := heq
  have hdes := Tree.mem_toList.mp hmem
  have hc' := hships c hc
  rw [filter_flashPlan, hdes, Option.toList_some, List.flatMap_singleton, planParts,
    List.filter_map] at hc'
  refine ⟨des, hdes, ?_⟩
  rw [List.forall₂_map_left_iff] at hc'
  refine hc'.imp ?_
  rintro p s ⟨found, hfound, rfl⟩
  exact ⟨rfl, rfl, found, hfound, rfl⟩

end Ships

/-! ## What a bundle is good for -/

section Bundle

variable {ι : Type} [DecidableEq ι] {suit : Suit} {Value : Type} {codec : Codec} {sha : Sha256}
  {calls : ι → Upload} {order : RowOrder} {tower tower' : Tower suit Value}
  {rig : Except Error Tree} {getDevice : String → Except Error (Option Device)}
  {target : ChannelTarget} {deviceId : String} {only : Option (List String)}

/-- What a preview asks about a content is answered from the index. -/
theorem artifactExists_previewHub {inner : ContentHash} {found : Option ArtifactRef}
    (h : (tower.previewHub sha order).artifactExists inner = .ok found) :
    found = (tower.index inner).map (·.ref) := by
  simp only [Tower.previewHub, artifactExists] at h
  cases hindex : tower.index inner with
  | none =>
    simp only [hindex, Except.mapError_error, Tower.found, SoftwareTower.AppError.status] at h
    exact (Except.ok.inj h).symm
  | some e =>
    simp only [hindex, Except.mapError_ok, Tower.found] at h
    exact (Except.ok.inj h).symm

/-- A part that ships has the blob of its index entry. -/
theorem blob_of_shippedPart {p : Part} {s : ShipPart}
    (h : ShippedPart (tower.previewHub sha order) p s) :
    s.blob = (tower.index p.content).map fun e => ⟨e.outer, e.size⟩ := by
  obtain ⟨-, -, found, hfound, hblob⟩ := h
  rw [hblob, artifactExists_previewHub hfound, Option.map_map]
  rfl

/-- A payload of a component, seen from the part that it belongs to. -/
theorem mem_payloads_iff {c : ComponentApply} {q : PayloadRef} :
    q ∈ c.payloads ↔ ∃ s ∈ c.ship, ∃ b, s.blob = some b ∧ q = ⟨"#" ++ s.part, b.outer, b.size⟩ := by
  simp only [ComponentApply.payloads, List.mem_filterMap, Option.map_eq_some_iff, eq_comm (a := q)]

/-- What the device makes of a bundled component: each payload is the blob of a desired part, and
installs as the part of the envelope with its name. -/
def BundledAs (codec : Codec) (sha : Sha256) (recv : Receiver suit) (secret : recv.SecretKey)
    (blobs : ContentHash → Option Bytes) (des : Entity) (env : suit.Envelope)
    (f : ComponentFlash) : Prop :=
  ∀ q ∈ f.payloads, ∃ i p blob plain, p ∈ des.parts ∧ q.uri = "#" ++ p.id ∧
    suit.uri env i = some q.uri ∧ blobs q.outer = some blob ∧
    recv.install codec sha secret env i blob = some plain ∧ digest sha plain = p.content ∧
    plain.length = q.size

/-- The envelope of a component decodes, the payloads install as its parts, and they are those of
all its parts iff each part that ships has a blob. -/
theorem bundledAs_of_createEnvelope (recv : Receiver suit) {secret : recv.SecretKey}
    {observed : Tree} {c : ComponentApply} {des : Entity} {pubkey : String} {cose envelope : Bytes}
    (hids : (des.parts.map (·.id)).Nodup)
    (hships : List.Forall₂ (ShippedPart (tower.previewHub sha order))
      (changedParts observed c.entity des) c.ship)
    (hcose : decodeDevicePubkey suit pubkey = .ok cose)
    (hkey : suit.fromCoseKeyBytes cose = .ok (recv.publicKey secret))
    (hsame : ∀ inner e e', tower.index inner = some e → tower'.index inner = some e' → e = e')
    (hblobs : ∀ inner e, tower'.index inner = some e → ∃ b z plain,
      tower'.blobs e.outer = some b ∧ digest sha b = e.outer ∧
      codec.decrypt e.cek e.nonce b = some z ∧ codec.decompress z = some plain ∧
      digest sha plain = inner ∧ plain.length = e.size)
    (h : createEnvelope tower'.signer tower'.index (c.newEnvelope pubkey deviceId) =
      .ok envelope) :
    ∃ env, suit.decodeEnvelope envelope = .ok env ∧
      BundledAs codec sha recv secret tower'.blobs des env ⟨c.entity, envelope.length, c.payloads⟩ ∧
      ((∀ i < suit.componentCount env, ∃ q ∈ c.payloads, suit.uri env i = some q.uri) ↔
        ∀ s ∈ c.ship, s.blob.isSome) := by
  obtain ⟨cose', key, specs, hcose', hkey', hspecs, hbuild⟩ := specs_of_createEnvelope h
  obtain rfl : cose = cose' := Except.ok.inj (hcose.symm.trans hcose')
  obtain rfl : recv.publicKey secret = key := Except.ok.inj (hkey.symm.trans hkey')
  replace hspecs := List.forall₂_map_left_iff.mp hspecs
  -- The ids of the manifest are those of the shipped parts, which are distinct.
  have hparts : (changedParts observed c.entity des).map (·.id) = c.ship.map (·.part) :=
    (hships.imp fun p s hs => hs.1.symm).map_eq_map
  have hnodup : (c.ship.map (·.part)).Nodup := by
    rw [← hparts]
    exact hids.sublist (List.filter_sublist.map _)
  have hspecIds : (specs.map (·.id)).Nodup := by
    have hmap : c.ship.map ((fun id => [c.entity, id]) ∘ (·.part)) = specs.map (·.id) :=
      (hspecs.imp fun s spec ⟨_, _, hspec⟩ => hspec.id.symm).map_eq_map
    rw [← hmap, ← List.map_map]
    exact hnodup.map fun a b hab => by simpa using hab
  obtain ⟨env, hdecode, -, hcount, hmanifest⟩ := suit.decode_image hspecIds hbuild
  have huri : ∀ i (hi : i < c.ship.length), suit.uri env i = some ("#" ++ c.ship[i].part) := by
    intro i hi
    have hi' : i < specs.length := hspecs.length_eq ▸ hi
    obtain ⟨_, -, hspec⟩ := hspecs.get hi hi'
    rw [(hmanifest i hi').2.1]
    exact congrArg some hspec.uri
  refine ⟨env, hdecode, ?_, ?_⟩
  · intro q hq
    obtain ⟨s, hs, b, hb, rfl⟩ := mem_payloads_iff.mp hq
    obtain ⟨i, hi, rfl⟩ := List.mem_iff_getElem.mp hs
    have hip : i < (changedParts observed c.entity des).length := hships.length_eq ▸ hi
    have his : i < specs.length := hspecs.length_eq ▸ hi
    have hship := hships.get hip hi
    obtain ⟨entry, hentry, hspec⟩ := hspecs.get hi his
    rw [List.get_eq_getElem, List.get_eq_getElem] at hship
    rw [List.get_eq_getElem] at hentry hspec
    rw [List.get_eq_getElem] at hspec
    -- The blob that the plan has found is the one that the envelope was made for.
    obtain ⟨e, he, rfl⟩ := Option.map_eq_some_iff.mp ((blob_of_shippedPart hship).symm.trans hb)
    rw [hship.2.1] at hentry
    obtain rfl := hsame _ _ _ he hentry
    obtain ⟨blob, z, plain, hblob, -, hz, hplain, hdigest, hsize⟩ := hblobs _ _ hentry
    obtain ⟨-, -, himageDigest⟩ := hmanifest i his
    obtain ⟨hinfo, himageSize⟩ := recv.decode_image hspecIds hbuild hdecode i his
    obtain ⟨info, hspecInfo, hwrapped⟩ := hspec.wrapped
    refine ⟨i, _, blob, plain, List.mem_of_mem_filter (List.getElem_mem hip),
      by rw [hship.1], huri i hi, hblob, ?_, hdigest, hsize⟩
    refine install_eq_some recv (hinfo.trans hspecInfo) hwrapped hz hplain ?_ ?_
    · rw [himageDigest, hspec.digest, hdigest]
      exact congrArg (fun content => some content.bytes.toList) hship.2.1
    · rw [himageSize, hspec.size, hsize]
  · rw [hcount, ← hspecs.length_eq]
    constructor
    · intro hall s hs
      obtain ⟨i, hi, rfl⟩ := List.mem_iff_getElem.mp hs
      obtain ⟨q, hq, hqi⟩ := hall i hi
      obtain ⟨s, hs, b, hb, rfl⟩ := mem_payloads_iff.mp hq
      -- The payload with the uri of a part is the one of this part.
      have hpart : c.ship[i].part = s.part := by
        simpa using Option.some.inj ((huri i hi).symm.trans hqi)
      rw [List.inj_on_of_nodup_map hnodup (List.getElem_mem hi) hs hpart, hb]
      rfl
    · intro hall i hi
      obtain ⟨b, hb⟩ := Option.isSome_iff_exists.mp (hall _ (List.getElem_mem hi))
      exact ⟨_, mem_payloads_iff.mpr ⟨_, List.getElem_mem hi, b, hb, rfl⟩, huri i hi⟩

/-- Each part of a component that an envelope was made for has a blob, if what is indexed for the
envelope was indexed for the plan. -/
theorem isSome_blob_of_createEnvelope {observed : Tree} {c : ComponentApply} {des : Entity}
    {pubkey : String} {envelope : Bytes}
    (hships : List.Forall₂ (ShippedPart (tower.previewHub sha order))
      (changedParts observed c.entity des) c.ship)
    (hindexed : ∀ inner, (tower'.index inner).isSome → (tower.index inner).isSome)
    (h : createEnvelope tower'.signer tower'.index (c.newEnvelope pubkey deviceId) =
      .ok envelope) :
    ∀ s ∈ c.ship, s.blob.isSome := by
  obtain ⟨_, _, _, -, -, hspecs, -⟩ := specs_of_createEnvelope h
  intro s hs
  obtain ⟨p, -, hship⟩ := hships.exists_left hs
  obtain ⟨_, -, entry, hentry, -⟩ := (List.forall₂_map_left_iff.mp hspecs).flip.exists_left hs
  have hindex : (tower'.index p.content).isSome := by
    rw [← hship.2.1, hentry]
    rfl
  rw [blob_of_shippedPart hship, Option.isSome_map]
  exact hindexed _ hindex

/-- No part of a component is missing iff each one that it ships has a blob. -/
theorem forall_missing_iff {plan : ApplyPlan} (hnodup : (plan.components.map (·.entity)).Nodup)
    {c : ComponentApply} (hc : c ∈ plan.components) :
    (∀ m ∈ plan.missing, m.1 ≠ c.entity) ↔ ∀ s ∈ c.ship, s.blob.isSome := by
  constructor
  · intro h s hs
    by_contra hnone
    have hmem : (c.entity, s.part) ∈ plan.missing :=
      List.mem_flatMap.mpr ⟨c, hc, List.mem_map.mpr
        ⟨s, List.mem_filter.mpr ⟨hs, by simpa using hnone⟩, rfl⟩⟩
    exact h _ hmem rfl
  · rintro h m hm hentity
    obtain ⟨c', hc', hm⟩ := List.mem_flatMap.mp hm
    obtain ⟨s, hs, rfl⟩ := List.mem_map.mp hm
    obtain rfl := List.inj_on_of_nodup_map hnodup hc' hc hentity
    obtain ⟨hs, hnone⟩ := List.mem_filter.mp hs
    have hsome := h s hs
    rw [Option.isNone_iff_eq_none.mp hnone] at hsome
    cases hsome

/-- A component that ships nothing has no payload. -/
theorem flatMap_payloads_filter (l : List ComponentApply) :
    ((l.filter fun c => !c.ship.isEmpty).flatMap (·.payloads)) = l.flatMap (·.payloads) := by
  induction l with
  | nil => rfl
  | cons c l ih =>
    cases hship : c.ship with
    | nil =>
      have hnil : c.payloads = [] := by simp [ComponentApply.payloads, hship]
      simp [hship, hnil, ih]
    | cons s ship => simp [hship, ih]

/-- The bytes that a plan ships are those of the payloads. -/
theorem sum_payloads (l : List ComponentApply) :
    ((l.flatMap (·.payloads)).map (·.size)).sum =
      ((l.flatMap (·.ship)).filterMap fun s => s.blob.map (·.size)).sum := by
  simp only [List.map_flatMap, List.filterMap_flatMap, ComponentApply.payloads, List.map_filterMap,
    Option.map_map, Function.comp_def]

/-- Let publish calls interleave in any way and fail anywhere, and the tower read the index while
they run: first for the plan, and again for each envelope. A bundle that succeeds is for the tree of
the release that the target names. It has the components that ship something, with as many bytes as
the plan says, and their payloads install on the device as parts of the envelope that the tower has
built for the component. The payloads of a component are those of all parts of its envelope iff the
plan had nothing missing of it, which is so if no content was indexed since. -/
theorem flash_bundle_installs (recv : Receiver suit) (secret : recv.SecretKey)
    (hsha : CiphersCollisionFree codec sha calls) (schedule : List (Sys.Turn storeOps ι))
    (hserved : ServedFrom tower
      (schedule.foldl (Sys.next contentStore) (startPublishing codec sha calls)))
    (hserved' : ServedFrom tower'
      (schedule.foldl (Sys.next contentStore) (startPublishing codec sha calls)))
    (pubkey : String) (hdevice : devicePubkey getDevice deviceId = .ok pubkey) (cose : Bytes)
    (hcose : decodeDevicePubkey suit pubkey = .ok cose)
    (hkey : suit.fromCoseKeyBytes cose = .ok (recv.publicKey secret)) (bundle : FlashBundle)
    (h : flashBundle rig (tower.previewHub sha order) tower'.buildEnvelope getDevice target deviceId
      only = .ok bundle) :
    ∃ plan v desired, applyPlan rig (tower.previewHub sha order) target only = .ok plan ∧
      target.selector.release tower.server.committed = some v ∧
      resolve order tower.server.committed.releases v = .ok desired ∧
      bundle.components.map (·.entity) =
        (plan.components.filter fun c => !c.ship.isEmpty).map (·.entity) ∧
      ((bundle.components.flatMap (·.payloads)).map (·.size)).sum = plan.shipBytes ∧
      (∀ f ∈ bundle.components, ∃ c ∈ plan.components, c.entity = f.entity ∧
        ∃ des envelope env, desired.get? f.entity = some des ∧
        tower'.buildEnvelope (c.newEnvelope pubkey deviceId) = .ok envelope ∧
        f.envelopeBytes = envelope.length ∧ suit.decodeEnvelope envelope = .ok env ∧
        BundledAs codec sha recv secret tower'.blobs des env f ∧
        ((∀ i < suit.componentCount env, ∃ q ∈ f.payloads, suit.uri env i = some q.uri) ↔
          ∀ m ∈ plan.missing, m.1 ≠ f.entity)) ∧
      ((∀ inner, (tower'.index inner).isSome → (tower.index inner).isSome) →
        plan.missing = []) := by
  simp only [flashBundle, Except.bind_eq_ok_iff, Except.mapError_eq_ok_iff,
    Except.pure_eq_ok_iff] at h
  obtain ⟨plan, hplan, pubkey', hpubkey, components, hcomponents, rfl⟩ := h
  obtain rfl : pubkey = pubkey' := Except.ok.inj (hdevice.symm.trans hpubkey)
  have hparts := hplan
  simp only [applyPlan, Except.bind_eq_ok_iff] at hparts
  obtain ⟨observed, hrig, desired, hdesired, -⟩ := hparts
  obtain ⟨v, hrelease, hresolve⟩ := exists_release_of_desired hdesired
  have hids := distinctIds_of_resolve hresolve
  obtain ⟨hnodup, hships⟩ := shipped_of_applyPlan hrig hdesired hplan
  have hbundled := Except.mapM_eq_ok_iff.mp hcomponents
  -- Each bundled component comes from one of the plan, and its envelope was built.
  have hof : ∀ c f, bundleComponent tower'.buildEnvelope pubkey deviceId c = .ok f →
      ∃ envelope, tower'.buildEnvelope (c.newEnvelope pubkey deviceId) = .ok envelope ∧
        f = ⟨c.entity, envelope.length, c.payloads⟩ := by
    intro c f hf
    simp only [bundleComponent, Except.bind_eq_ok_iff, Except.pure_eq_ok_iff] at hf
    obtain ⟨envelope, henvelope, rfl⟩ := hf
    exact ⟨envelope, henvelope, rfl⟩
  have hsame : ∀ inner e e', tower.index inner = some e → tower'.index inner = some e' →
      e = e' := fun inner e e' he he' =>
    Option.some.inj ((hserved.index inner e he).symm.trans (hserved'.index inner e' he'))
  refine ⟨plan, v, desired, hplan, hrelease, hresolve, ?_, ?_, fun f hf => ?_, fun hindexed => ?_⟩
  · refine (List.Forall₂.map_eq_map (hbundled.imp fun c f hf => ?_)).symm
    obtain ⟨_, -, rfl⟩ := hof c f hf
    rfl
  · have hpayloads : components.map (·.payloads) =
        (plan.components.filter fun c => !c.ship.isEmpty).map (·.payloads) := by
      refine (List.Forall₂.map_eq_map (hbundled.imp fun c f hf => ?_)).symm
      obtain ⟨_, -, rfl⟩ := hof c f hf
      rfl
    rw [List.flatMap_def, hpayloads, ← List.flatMap_def, flatMap_payloads_filter, sum_payloads]
    rfl
  · obtain ⟨c, hc, hcf⟩ := hbundled.exists_left hf
    obtain ⟨envelope, henvelope, rfl⟩ := hof c f hcf
    have hc := List.mem_of_mem_filter hc
    obtain ⟨des, hdes, hship⟩ := hships c hc
    obtain ⟨env, hdecode, hinstalls, hcomplete⟩ := bundledAs_of_createEnvelope recv
      (hids _ _ hdes) hship hcose hkey hsame (fun _ _ => hserved'.blob_of_index hsha schedule)
      (Except.mapError_eq_ok_iff.mp henvelope)
    exact ⟨c, hc, rfl, des, envelope, env, hdes, henvelope, rfl, hdecode, hinstalls,
      hcomplete.trans (forall_missing_iff hnodup hc).symm⟩
  · refine List.eq_nil_iff_forall_not_mem.mpr fun m hm => ?_
    obtain ⟨c, hc, hm⟩ := List.mem_flatMap.mp hm
    obtain ⟨s, hs, rfl⟩ := List.mem_map.mp hm
    obtain ⟨hs, hnone⟩ := List.mem_filter.mp hs
    -- What misses a blob ships, so that an envelope was made for it.
    have hfilter : c ∈ plan.components.filter fun c => !c.ship.isEmpty :=
      List.mem_filter.mpr ⟨hc, by simpa using List.ne_nil_of_mem hs⟩
    obtain ⟨f, -, hcf⟩ := hbundled.flip.exists_left hfilter
    obtain ⟨envelope, henvelope, -⟩ := hof c f hcf
    obtain ⟨des, -, hship⟩ := hships c hc
    have hsome := isSome_blob_of_createEnvelope hship hindexed
      (Except.mapError_eq_ok_iff.mp henvelope) s hs
    rw [Option.isNone_iff_eq_none.mp hnone] at hsome
    cases hsome

/-- The bundle of the sample for a vehicle with an older kernel, planned with an earlier tower. -/
def bundleOver (tower : Tower Suit.framedKeys Unit) : Except PlanError FlashBundle :=
  flashBundle (.ok (vehicleWith oldKernel)) (tower.previewHub sampleSha .insertion)
    pushedTower.buildEnvelope
    (fun id => .ok (some ⟨id, none, .enrolled, some (hexEncode [0xa1, 0xb2])⟩)) rolloutTarget
    "device-1" none

/-- What there is of a bundle: the components with the number of their payloads. -/
theorem bundleOver_samples :
    (bundleOver pushedTower).map (fun bundle =>
      bundle.components.map fun f => (f.entity, f.payloads.length)) = .ok [("vm1", 1)] ∧
    (bundleOver earlyTower).map (fun bundle =>
      bundle.components.map fun f => (f.entity, f.payloads.length)) = .ok [("vm1", 0)] ∧
    (applyPlan (.ok (vehicleWith oldKernel)) (earlyTower.previewHub sampleSha .insertion)
      rolloutTarget none).map (·.missing) = .ok [("vm1", "kernel")] := by
  refine ⟨?_, ?_, ?_⟩ <;> decide +kernel

/-- The bundle has the kernel of the sample as its only payload, which installs and is all that the
envelope needs. If the kernel was not indexed for the plan, then it is missing in the bundle. -/
theorem flash_bundle_installs_kernel :
    (∃ bundle, bundleOver pushedTower = .ok bundle ∧
      (bundle.components.map fun f => (f.entity, f.payloads.length)) = [("vm1", 1)] ∧
      ∃ desired, resolve .insertion rolloutServer.committed.releases 1 = .ok desired ∧
        ∀ f ∈ bundle.components, ∃ des envelope env, desired.get? f.entity = some des ∧
          Suit.framedKeys.decodeEnvelope envelope = .ok env ∧
          BundledAs sampleCodec sampleSha framedReceiver () pushedTower.blobs des env f ∧
          ∀ i < Suit.framedKeys.componentCount env, ∃ q ∈ f.payloads,
            Suit.framedKeys.uri env i = some q.uri) ∧
    ∃ bundle, bundleOver earlyTower = .ok bundle ∧
      (bundle.components.map fun f => (f.entity, f.payloads.length)) = [("vm1", 0)] ∧
      ∀ f ∈ bundle.components, ∃ envelope env, Suit.framedKeys.decodeEnvelope envelope = .ok env ∧
        ¬ ∀ i < Suit.framedKeys.componentCount env, ∃ q ∈ f.payloads,
          Suit.framedKeys.uri env i = some q.uri := by
  obtain ⟨hbundle, hearly, hmissing⟩ := bundleOver_samples
  obtain ⟨bundle, h, hpayloads⟩ := Except.map_eq_ok_iff.mp hbundle
  obtain ⟨bundle', h', hpayloads'⟩ := Except.map_eq_ok_iff.mp hearly
  refine ⟨⟨bundle, h, hpayloads, ?_⟩, bundle', h', hpayloads', fun f hf => ?_⟩
  · obtain ⟨plan, v, desired, -, hrelease, hdesired, -, -, hinstalls, hnone⟩ :=
      flash_bundle_installs framedReceiver () ciphersCollisionFree_sample pushedSchedule
        servedFrom_pushedTower servedFrom_pushedTower
        (hexEncode [0xa1, 0xb2]) rfl [0xa1, 0xb2] (decodeDevicePubkey_hexEncode rfl) rfl bundle h
    obtain rfl : v = 1 := TargetSelector.release_of_pinned rfl hrelease
    refine ⟨desired, hdesired, fun f hf => ?_⟩
    obtain ⟨c, -, -, des, envelope, env, hdes, -, -, hdecode, hbundled, hcomplete⟩ := hinstalls f hf
    refine ⟨des, envelope, env, hdes, hdecode, hbundled, hcomplete.mpr ?_⟩
    simp [hnone fun _ h => h]
  · have hserved : ServedFrom earlyTower pushedStore :=
      ⟨fun _ _ h => (Option.some_ne_none _ h.symm).elim, fun _ => ⟨[], rfl⟩⟩
    obtain ⟨plan, v, desired, hplan, -, -, -, -, hinstalls, -⟩ :=
      flash_bundle_installs framedReceiver () ciphersCollisionFree_sample pushedSchedule
        hserved servedFrom_pushedTower
        (hexEncode [0xa1, 0xb2]) rfl [0xa1, 0xb2] (decodeDevicePubkey_hexEncode rfl) rfl bundle' h'
    obtain ⟨c, -, -, des, envelope, env, -, -, -, hdecode, -, hcomplete⟩ := hinstalls f hf
    refine ⟨envelope, env, hdecode, fun hall => ?_⟩
    -- The plan had the kernel of the only component missing.
    have hplanned : plan.missing = [("vm1", "kernel")] := by
      rw [hplan] at hmissing
      exact Except.ok.inj hmissing
    have hentity : f.entity = "vm1" := by
      have hmem := List.mem_map_of_mem (f := fun f => (f.entity, f.payloads.length)) hf
      rw [hpayloads'] at hmem
      exact congrArg Prod.fst (List.mem_singleton.mp hmem)
    exact hcomplete.mp hall ("vm1", "kernel") (by simp [hplanned]) hentity.symm

end Bundle

end Orchestrator
