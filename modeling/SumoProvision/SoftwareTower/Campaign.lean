import SumoProvision.Foundations.Result
import SumoProvision.SoftwareTower.Agreement
import SumoProvision.SoftwareTower.Content
import SumoProvision.Wire.Suit

/-!
# Assembling the L1 campaign

The sw-authority signer, and the part of `channel_target_l1` behind the resolution of the target:
one signed L2 for each component that the partition includes or disables, wrapped into a signed L1.
With nothing to ship the answer is 204 if the vehicle is at target, and 404 if the target is empty.

`assembleL1_eq_ok` says what a successful answer consists of.
-/

namespace SoftwareTower

open Wire

/-! ## The signer -/

/-- The sw-authority signing key and the clock. -/
structure Signer (suit : Suit) where
  key : suit.Key
  /-- Seconds since the epoch, zero before it. -/
  now : ℕ

/-- One part to place in a device's envelope. -/
structure EnvelopePart where
  id : String
  /-- The plaintext digest. -/
  inner : ContentHash
  size : ℕ
  cek : Vector UInt8 cekLen
  iv : Vector UInt8 nonceLen
  /-- The address of the ciphertext; without it the payload is integrated. -/
  outer : Option ContentHash

namespace Signer

variable {suit : Suit}

/-- The manifest component of a part: its key re-wrapped, its payload by address. -/
def componentSpec (recipient : Recipient suit.Key) (component : String) (p : EnvelopePart) :
    Except String (ComponentSpec suit.EncInfo) := do
  let encInfo ← suit.rewrapCekEcdh p.cek p.iv recipient
  -- A part with an outer hash is pulled by its address, any other one is integrated.
  let uri := match p.outer with
    | some outer => outer.toPrefixed
    | none => "#" ++ p.id
  return ⟨[component, p.id], p.inner.bytes.toList, p.size, uri, some encInfo⟩

/-- Build a signed envelope for one component's parts. -/
def buildEnvelope (signer : Signer suit) (devicePubkey deviceKid : Bytes) (component : String)
    (parts : List EnvelopePart) (seq : ℕ) : Except String Bytes := do
  let publicKey ← suit.fromCoseKeyBytes devicePubkey
  let specs ← parts.mapM (componentSpec ⟨publicKey, deviceKid⟩ component)
  suit.buildImage signer.key signer.now seq specs

/-- Build a signed L1 campaign from the L2 envelopes. -/
def buildCampaign (signer : Signer suit) (components : List (String × Bytes)) (seq : ℕ) :
    Except String Bytes :=
  suit.buildCampaign signer.key signer.now seq components

/-- Build a signed disable manifest. -/
def buildDisableEnvelope (signer : Signer suit) (component : String) (seq : ℕ) :
    Except String Bytes :=
  suit.buildDisable signer.key signer.now seq [component]

end Signer

/-! ## The campaign -/

/-- What the assembly needs of an L1 request: the decoded device key, the device id and the sequence
number. -/
structure L1Recipient where
  devicePubkey : Bytes
  deviceId : String
  seq : ℕ

/-- The answer of the L1 endpoint. -/
inductive L1Response where
  /-- 204: the vehicle is at target. -/
  | noContent
  /-- 200 with the signed campaign. -/
  | cbor (l1 : Bytes)

section Assembly

variable {suit : Suit} (signer : Signer suit) (index : ContentHash → Option ArtifactEntry)
  (req : L1Recipient)

/-- The envelope part of a release part, from its index entry. -/
def envelopePart (p : Part) : Except AppError EnvelopePart :=
  match index p.content with
  | none => .error .notFound
  | some entry => .ok ⟨p.id, p.content, entry.size, entry.cek, entry.nonce, some entry.outer⟩

/-- The L2 of one component: a disable manifest, or an image of all its parts. -/
def buildL2 (path : String) (entity : Entity) : Except AppError Bytes :=
  if entity.disabled then
    (signer.buildDisableEnvelope path req.seq).mapError fun e =>
      .internal (.other s!"L2 disable build failed for {path}: {e}")
  else do
    let parts ← entity.parts.mapM (envelopePart index)
    let l2 := signer.buildEnvelope req.devicePubkey (Text.utf8 req.deviceId) path parts req.seq
    l2.mapError fun e => .internal (.other s!"L2 build failed for {path}: {e}")

/-- The L2s of a list of components. -/
def buildL2s (components : List (String × Entity)) : Except AppError (List (String × Bytes)) :=
  components.mapM fun c => do
    let l2 ← buildL2 signer index req c.1 c.2
    return (c.1, l2)

/-- `channel_target_l1` behind the resolution of the target tree. -/
def assembleL1 (tree : Tree) (reported : Option Tree) : Except AppError L1Response := do
  let split := partitionL1Components tree reported
  let l2s ← buildL2s signer index req (split.included ++ split.disabled)
  if l2s.isEmpty then
    -- Everything was skipped: the vehicle is at target. Nothing at all: there is no target.
    if !split.skipped.isEmpty then return .noContent
    else .error .notFound
  else
    let l1 ← (signer.buildCampaign l2s req.seq).mapError fun e =>
      .internal (.other s!"L1 build failed: {e}")
    return .cbor l1

variable {signer index req}

/-- The L2s stand in the order of their components. -/
theorem forall₂_of_buildL2s {components : List (String × Entity)} {l2s : List (String × Bytes)}
    (h : buildL2s signer index req components = .ok l2s) :
    List.Forall₂ (fun c l2 => l2.1 = c.1 ∧ buildL2 signer index req c.1 c.2 = .ok l2.2)
      components l2s := by
  refine (Except.mapM_eq_ok_iff.mp h).imp fun c l2 hc => ?_
  simp only [Except.bind_eq_ok_iff, Except.pure_eq_ok_iff] at hc
  obtain ⟨bytes, hbytes, rfl⟩ := hc
  exact ⟨rfl, hbytes⟩

/-- The manifest component of a release part. -/
def SpecOf (index : ContentHash → Option ArtifactEntry) (path : String) (p : Part)
    (spec : ComponentSpec suit.EncInfo) : Prop :=
  spec.id = [path, p.id] ∧ spec.digest = p.content.bytes.toList ∧
    ∃ entry, index p.content = some entry ∧ spec.uri = entry.outer.toPrefixed

/-- The L2 of an enabled component is an image with one manifest component for each part. -/
theorem buildImage_of_buildL2 {path : String} {entity : Entity} {l2 : Bytes}
    (henabled : entity.disabled = false) (h : buildL2 signer index req path entity = .ok l2) :
    ∃ specs, List.Forall₂ (SpecOf index path) entity.parts specs ∧
      suit.buildImage signer.key signer.now req.seq specs = .ok l2 := by
  simp only [buildL2, henabled, Bool.false_eq_true, if_false, Signer.buildEnvelope,
    Except.bind_eq_ok_iff, Except.mapError_eq_ok_iff] at h
  obtain ⟨eparts, heparts, key, -, specs, hspecs, hbuild⟩ := h
  -- Part by part: the index entry of the part, then its manifest component.
  refine ⟨specs, (Except.forall₂_of_mapM_mapM heparts hspecs).imp ?_, hbuild⟩
  rintro p spec ⟨e, he, hspec⟩
  unfold envelopePart at he
  split at he
  · cases he
  · rename_i entry hentry
    cases he
    simp only [Signer.componentSpec, Except.bind_eq_ok_iff, Except.pure_eq_ok_iff] at hspec
    obtain ⟨encInfo, -, rfl⟩ := hspec
    exact ⟨rfl, rfl, entry, hentry, rfl⟩

/-- What a successful answer consists of: nothing because nothing is emitted, or a campaign with one
L2 for each emitted component. -/
theorem assembleL1_eq_ok {tree : Tree} {reported : Option Tree} {response : L1Response}
    (h : assembleL1 signer index req tree reported = .ok response) :
    let split := partitionL1Components tree reported
    (response = .noContent ∧ split.included ++ split.disabled = []) ∨
      ∃ l2s l1, response = .cbor l1 ∧
        buildL2s signer index req (split.included ++ split.disabled) = .ok l2s ∧
        signer.buildCampaign l2s req.seq = .ok l1 := by
  intro split
  simp only [assembleL1, Except.bind_eq_ok_iff] at h
  obtain ⟨l2s, hl2s, h⟩ := h
  split at h
  · rename_i hempty
    obtain rfl : l2s = [] := List.isEmpty_iff.mp hempty
    -- No L2 was built, so no component was emitted.
    have hnone := (forall₂_of_buildL2s hl2s).length_eq
    split at h
    · cases h
      exact .inl ⟨rfl, List.length_eq_zero_iff.mp hnone⟩
    · cases h
  · simp only [Except.bind_eq_ok_iff, Except.mapError_eq_ok_iff, Except.pure_eq_ok_iff] at h
    obtain ⟨l1, hl1, rfl⟩ := h
    exact .inr ⟨l2s, l1, rfl, hl2s, hl1⟩

/-- With its parts indexed, only the signer makes a component's L2 fail. -/
theorem exists_internal_of_buildL2_eq_error {path : String} {entity : Entity} {e : AppError}
    (hindexed : ∀ p ∈ entity.parts, index p.content ≠ none)
    (h : buildL2 signer index req path entity = .error e) : ∃ failure, e = .internal failure := by
  unfold buildL2 at h
  split at h
  · obtain ⟨reason, -, rfl⟩ := Except.mapError_eq_error_iff.mp h
    exact ⟨_, rfl⟩
  · rcases Except.bind_eq_error_iff.mp h with hparts | ⟨parts, -, hbuild⟩
    · obtain ⟨p, hp, hmissing⟩ := Except.exists_of_mapM_eq_error hparts
      unfold envelopePart at hmissing
      split at hmissing
      · rename_i hnone
        exact absurd hnone (hindexed p hp)
      · cases hmissing
    · obtain ⟨reason, -, rfl⟩ := Except.mapError_eq_error_iff.mp hbuild
      exact ⟨_, rfl⟩

/-- With all parts indexed and a signer that does not fail, the tower answers, unless the target has
nothing to ship and nothing to skip. -/
theorem exists_ok_or_notFound_of_indexed {tree : Tree} {reported : Option Tree}
    (hindexed : ∀ path e, tree.get? path = some e → ∀ p ∈ e.parts, index p.content ≠ none)
    (hsigned : ∀ failure, assembleL1 signer index req tree reported ≠ .error (.internal failure)) :
    (∃ response, assembleL1 signer index req tree reported = .ok response) ∨
      assembleL1 signer index req tree reported = .error .notFound ∧
        emittedPaths tree reported = [] ∧ (partitionL1Components tree reported).skipped = [] := by
  cases hanswer : assembleL1 signer index req tree reported with
  | ok response => exact .inl ⟨response, rfl⟩
  | error e =>
    -- The signer does not fail, so what is left is a part without an index entry or an empty
    -- target.
    have hexternal : ∀ failure, e ≠ .internal failure := by
      rintro failure rfl
      exact hsigned failure hanswer
    simp only [assembleL1, Except.bind_eq_error_iff] at hanswer
    rcases hanswer with hl2s | ⟨l2s, hl2s, hanswer⟩
    · obtain ⟨c, hc, hl2⟩ := Except.exists_of_mapM_eq_error hl2s
      simp only [Except.bind_eq_error_iff, Except.pure_ne_error, and_false, exists_false,
        or_false] at hl2
      -- An emitted component is one of the target, and the parts of those are indexed.
      obtain ⟨hresolved, -⟩ := mem_emitted.mp hc
      obtain ⟨failure, hfailure⟩ := exists_internal_of_buildL2_eq_error (hindexed _ _ hresolved) hl2
      exact absurd hfailure (hexternal failure)
    · split at hanswer
      · rename_i hempty
        obtain rfl : l2s = [] := List.isEmpty_iff.mp hempty
        have hnone := List.length_eq_zero_iff.mp (forall₂_of_buildL2s hl2s).length_eq
        split at hanswer
        · cases hanswer
        · rename_i hskipped
          cases hanswer
          refine .inr ⟨rfl, by rw [emittedPaths, hnone, List.map_nil], ?_⟩
          simpa using hskipped
      · simp only [Except.bind_eq_error_iff, Except.pure_ne_error, and_false, exists_false,
          or_false, Except.mapError_eq_error_iff] at hanswer
        obtain ⟨reason, -, rfl⟩ := hanswer
        exact absurd rfl (hexternal _)

/-- With nothing to emit the answer is 204 or 404. -/
theorem assembleL1_of_none_emitted {tree : Tree} {reported : Option Tree}
    (h : emittedPaths tree reported = []) :
    assembleL1 signer index req tree reported =
      if (partitionL1Components tree reported).skipped.isEmpty then .error .notFound
      else .ok .noContent := by
  have hnone := List.map_eq_nil_iff.mp h
  simp only [assembleL1, hnone, buildL2s, List.mapM_nil, pure, Except.pure, Except.ok_bind,
    List.isEmpty_nil, if_true]
  cases (partitionL1Components tree reported).skipped.isEmpty <;> rfl

/-- The tower emits only what the assessment lists, and for a converged vehicle nothing at all: the
answer is no campaign. -/
theorem emitted_only_listed (signer : Signer suit) (index : ContentHash → Option ArtifactEntry)
    (req : L1Recipient) (observed desired : Tree) :
    (∀ path ∈ emittedPaths desired (some observed),
      path ∈ (assessTree observed desired).components) ∧
    ((assessTree observed desired).isConverged = true →
      (partitionL1Components desired (some observed)).included = [] ∧
      (partitionL1Components desired (some observed)).disabled = [] ∧
      ∀ l1, assembleL1 signer index req desired (some observed) ≠ .ok (.cbor l1)) := by
  refine ⟨fun path hpath => mem_components_of_emitted hpath, fun hconverged => ?_⟩
  rw [isConverged_iff] at hconverged
  have hnone : emittedPaths desired (some observed) = [] := by
    refine List.eq_nil_iff_forall_not_mem.mpr fun path hpath => ?_
    -- An emitted component would be listed, and nothing is.
    have hmem := mem_components_of_emitted hpath
    rw [hconverged] at hmem
    cases hmem
  obtain ⟨hincluded, hdisabled⟩ : (partitionL1Components desired (some observed)).included = [] ∧
      (partitionL1Components desired (some observed)).disabled = [] := by
    simpa [emittedPaths] using hnone
  refine ⟨hincluded, hdisabled, fun l1 h => ?_⟩
  rw [assembleL1_of_none_emitted hnone] at h
  split at h <;> cases h

/-- A vehicle that carries `vm1` is converged, and gets no campaign. -/
theorem emitted_only_listed_at_target :
    let vm1 : Entity := { kind := "vm", parts := [⟨"file", "kernel", ⟨Vector.replicate 32 7⟩⟩] }
    let tree := Tree.ofList [("vm1", vm1)]
    let signer : Signer .framed := ⟨(), 0⟩
    (assessTree tree tree).isConverged = true ∧
      ∀ l1, assembleL1 signer (fun _ => none) ⟨[], "device", 1⟩ tree (some tree) ≠
        .ok (.cbor l1) := by
  intro vm1 tree signer
  have hconverged : (assessTree tree tree).isConverged = true := by decide
  exact ⟨hconverged, ((emitted_only_listed signer _ _ tree tree).2 hconverged).2.2⟩

end Assembly

end SoftwareTower
