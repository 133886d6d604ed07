import SumoProvision.Foundations.OrderedMap
import SumoProvision.Foundations.Text
import SumoProvision.Wire.ContentHash

/-!
# SUIT envelopes

The SUIT builders and the decoder come from other crates (`sumo_offboard`, `sumo_codec`,
`sumo_onboard`) and are the parameter `Suit` of the development. The tower builds and signs
envelopes, the orchestrator decodes them, and what holds between the two are the laws of `Suit`: a
built envelope decodes to what was put into it.
-/

namespace Wire

/-- One component of an image manifest. -/
structure ComponentSpec (EncInfo : Type) where
  /-- The SUIT component id, `[component, part]`. -/
  id : List String
  /-- The plaintext image digest. -/
  digest : Bytes
  size : ℕ
  uri : String
  encryptionInfo : Option EncInfo

/-- The key a content key is wrapped to. -/
structure Recipient (Key : Type) where
  publicKey : Key
  kid : Bytes

/-- The builders and the decoder of SUIT envelopes. The builders take the signing key, the signing
time and the sequence number first. -/
structure Suit where
  /-- A COSE key. -/
  Key : Type
  EncInfo : Type
  /-- A decoded envelope. -/
  Envelope : Type
  fromCoseKeyBytes : Bytes → Except String Key
  rewrapCekEcdh : Vector UInt8 16 → Vector UInt8 12 → Recipient Key → Except String EncInfo
  /-- `MultiComponentBuilder::build`. -/
  buildImage : Key → ℕ → ℕ → List (ComponentSpec EncInfo) → Except String Bytes
  /-- `CampaignBuilder::build` with one integrated image for each named envelope. -/
  buildCampaign : Key → ℕ → ℕ → List (String × Bytes) → Except String Bytes
  /-- `ImageManifestBuilder::build_disable` for a component id. -/
  buildDisable : Key → ℕ → ℕ → List String → Except String Bytes
  decodeEnvelope : Bytes → Except String Envelope
  integratedPayloads : Envelope → Std.ExtTreeMap String Bytes
  componentCount : Envelope → ℕ
  componentId : Envelope → ℕ → Option (List Bytes)
  uri : Envelope → ℕ → Option String
  imageDigest : Envelope → ℕ → Option Bytes
  /-- Whether `disable_target` is present. -/
  hasDisableTarget : Envelope → Bool
  hasFirmware : Envelope → Bool
  /-- An image manifest has its components, in order, with their ids, uris and digests. -/
  decode_image : ∀ {key time seq components bytes}, (components.map (·.id)).Nodup →
    buildImage key time seq components = .ok bytes →
      ∃ env, decodeEnvelope bytes = .ok env ∧ hasDisableTarget env = false ∧
        componentCount env = components.length ∧ ∀ i (h : i < components.length),
          componentId env i = some (components[i].id.map Text.utf8) ∧
            uri env i = some components[i].uri ∧ imageDigest env i = some components[i].digest
  /-- A campaign has its images, each under `#<name>`. -/
  decode_campaign : ∀ {key time seq components bytes}, (components.map (·.1)).Nodup →
    buildCampaign key time seq components = .ok bytes →
      ∃ env, decodeEnvelope bytes = .ok env ∧ integratedPayloads env =
        .ofList (components.map fun c => ("#" ++ c.1, c.2))
  /-- A disable manifest has a disable target and no firmware. -/
  decode_disable : ∀ {key time seq component bytes},
    buildDisable key time seq component = .ok bytes →
      ∃ env, decodeEnvelope bytes = .ok env ∧ hasDisableTarget env = true ∧
        hasFirmware env = false

/-! ## Framed envelopes

An instance of `Suit` without signatures and encryption: an envelope is a tag and a list of byte
strings, each behind its length. -/

/-- A byte string behind its length, in unary. -/
def frame (bytes : Bytes) : Bytes :=
  List.replicate bytes.length 1 ++ 0 :: bytes

/-- The byte strings behind each other. -/
def frames (l : List Bytes) : Bytes :=
  l.flatMap frame

/-- At most `fuel` byte strings, read back from their frames. -/
def unframe : ℕ → Bytes → List Bytes
  | 0, _ => []
  | fuel + 1, bytes =>
    if bytes.isEmpty then []
    else
      let n := (bytes.takeWhile (· == 1)).length
      let rest := bytes.drop (n + 1)
      rest.take n :: unframe fuel (rest.drop n)

/-- The byte strings of a list of frames. -/
def unframes (bytes : Bytes) : List Bytes :=
  unframe bytes.length bytes

theorem unframe_frames {fuel : ℕ} {l : List Bytes} (h : l.length ≤ fuel) :
    unframe fuel (frames l) = l := by
  induction l generalizing fuel with
  | nil => cases fuel <;> rfl
  | cons b l ih =>
    -- The first frame starts with as many ones as it has bytes, then a zero that ends the count.
    obtain ⟨fuel, rfl⟩ : ∃ k, fuel = k + 1 := ⟨fuel - 1, by simp at h; omega⟩
    have hframes : frames (b :: l) = List.replicate b.length 1 ++ 0 :: (b ++ frames l) := by
      simp [frames, frame]
    have hlength : ((frames (b :: l)).takeWhile (· == 1)).length = b.length := by
      rw [hframes, List.takeWhile_append_of_pos (by simp)]
      simp
    have hrest : (frames (b :: l)).drop (b.length + 1) = b ++ frames l := by
      rw [hframes, List.drop_append]
      simp
    have hne : (frames (b :: l)).isEmpty = false := by
      simp [hframes]
    simp only [unframe, hne, hlength, hrest, Bool.false_eq_true, if_false]
    rw [List.take_left, List.drop_left, ih (by simpa using h)]

theorem unframes_frames (l : List Bytes) : unframes (frames l) = l := by
  -- Every frame has at least one byte, so the length is fuel enough.
  apply unframe_frames
  induction l with
  | nil => simp
  | cons b l ih =>
    simp only [frames, List.flatMap_cons, List.length_append, List.length_cons, frame] at ih ⊢
    omega

/-- Envelopes as tagged frames: tag 0 for an image, 1 for a campaign, 2 for a disable manifest. -/
def Suit.framed : Suit where
  Key := Unit
  EncInfo := Unit
  Envelope := UInt8 × List Bytes
  fromCoseKeyBytes _ := .ok ()
  rewrapCekEcdh _ _ _ := .ok ()
  buildImage _ _ _ components := .ok <| 0 :: frames (components.map fun c =>
    frames [frames (c.id.map Text.utf8), Text.utf8 c.uri, c.digest])
  buildCampaign _ _ _ components := .ok <| 1 :: frames (components.map fun c =>
    frames [Text.utf8 ("#" ++ c.1), c.2])
  buildDisable _ _ _ component := .ok <| 2 :: frames (component.map Text.utf8)
  decodeEnvelope
    | [] => .error "empty"
    | tag :: bytes => .ok (tag, unframes bytes)
  integratedPayloads env := .ofList <| env.2.filterMap fun payload =>
    match unframes payload with
    | [key, bytes] => some (Text.fromUtf8Lossy key, bytes)
    | _ => none
  componentCount env := env.2.length
  componentId env i := (env.2[i]?.bind fun c => (unframes c)[0]?).map unframes
  uri env i := (env.2[i]?.bind fun c => (unframes c)[1]?).map Text.fromUtf8Lossy
  imageDigest env i := env.2[i]?.bind fun c => (unframes c)[2]?
  hasDisableTarget env := env.1 == 2
  hasFirmware env := env.1 == 0
  decode_image := by
    rintro _ _ _ components _ - ⟨⟩
    refine ⟨_, rfl, rfl, ?_, ?_⟩
    · simp [unframes_frames]
    · intro i hi
      simp [unframes_frames, hi]
  decode_campaign := by
    rintro _ _ _ components _ - ⟨⟩
    refine ⟨_, rfl, ?_⟩
    simp only [unframes_frames, List.filterMap_map, Function.comp_def, Text.fromUtf8Lossy_utf8]
    rw [← List.filterMap_eq_map]
    rfl
  decode_disable := by
    rintro _ _ _ component _ ⟨⟩
    exact ⟨_, rfl, rfl, rfl⟩

end Wire
