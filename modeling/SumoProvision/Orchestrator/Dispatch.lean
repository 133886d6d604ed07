import SumoProvision.Foundations.Result
import SumoProvision.Wire.Suit
import SumoProvision.Wire.Tree

/-!
# From the L1 campaign to flash jobs

The orchestrator decodes the tower's signed L1 into one slice for each component (`fanout_l1`), and
turns the slices into flash jobs (`l1_jobs`): components outside the allowlist or not advertised are
left out, a component whose every content the vehicle carries is pushed without payloads, and any
other one with the ciphertext of all its parts.
-/

namespace Orchestrator

open Wire

/-- An error of the client that reads the rig. -/
inductive SovdError where
  | server (status : ℕ)
  | http (message : String)
  deriving DecidableEq

/-- The errors of the reads, the plan, the L1 push and the campaign. -/
inductive Error where
  | sovd (e : SovdError)
  | manifest (component : String)
  | nodeState (message : String)
  | decodeL1 (reason : String)
  | badL2 (component reason : String)
  | payloadMissing (outer : String)
  | channelNotFound (channel : String)
  | onlyMatchedNothing (only : String)
  | l1NeedsSelector (channel : String)
  | client (message : String)
  deriving DecidableEq

/-- One part of a component's L2 image. -/
structure L1Part where
  part : String
  /-- The address of the ciphertext. -/
  outer : ContentHash
  /-- The expected plaintext digest, if the L2 carries one. -/
  inner : Option ContentHash
  deriving DecidableEq

/-- One component's slice of an L1 campaign, its parts in manifest order. -/
structure L1Component where
  component : String
  envelope : Bytes
  parts : List L1Part
  deriving DecidableEq

/-- One payload of a flash job. -/
structure Payload where
  uri : String
  bytes : Bytes
  deriving DecidableEq

/-- A flash job of the engine. -/
structure FlashJob where
  componentId : String
  gatewayId : Option String
  envelope : Bytes
  payloads : List Payload
  deriving DecidableEq

/-! ## Fan-out -/

section Fanout

variable (suit : Suit)

/-- Part `i` of a component's manifest. -/
def fanoutPart (component : String) (env : suit.Envelope) (i : ℕ) : Except Error L1Part := do
  let part ← match (suit.componentId env i).bind (·[1]?) with
    | some seg => .ok (Text.fromUtf8Lossy seg)
    | none => .error (.badL2 component s!"component {i} has no part-id segment")
  let uri ← match suit.uri env i with
    | some uri => .ok uri
    | none => .error (.badL2 component s!"part '{part}' has no payload uri")
  let outer ← match ContentHash.fromStr uri with
    | .ok outer => .ok outer
    | .error _ => .error (.badL2 component s!"part '{part}' uri '{uri}' is not a content address")
  return ⟨part, outer, (suit.imageDigest env i).bind ContentHash.ofBytes?⟩

/-- The number of parts to push: none for a disable manifest. -/
def partCount (env : suit.Envelope) : ℕ :=
  -- A disable manifest has one component, which names its target and is nothing to push.
  if suit.hasDisableTarget env && !suit.hasFirmware env then 0 else suit.componentCount env

/-- The component of an integrated payload, `key.strip_prefix('#').unwrap_or(key)`. -/
def componentOf (key : String) : String :=
  String.ofList (("#".toList.isPrefixOf? key.toList).getD key.toList)

/-- The slice of one integrated L2. -/
def fanoutComponent (key : String) (l2 : Bytes) : Except Error L1Component := do
  let component := componentOf key
  let env ← (suit.decodeEnvelope l2).mapError fun e =>
    .badL2 component s!"L2 envelope did not decode: {e}"
  let parts ← (List.range (partCount suit env)).mapM (fanoutPart suit component env)
  return ⟨component, l2, parts⟩

/-- Fan a signed L1 campaign out into its per-component L2 slices. -/
def fanoutL1 (l1 : Bytes) : Except Error (List L1Component) := do
  let campaign ← (suit.decodeEnvelope l1).mapError .decodeL1
  (suit.integratedPayloads campaign).toList.mapM fun (key, l2) => fanoutComponent suit key l2

variable {suit}

@[simp] theorem componentOf_append (path : String) : componentOf ("#" ++ path) = path := by
  -- Only the first `#` goes, so a path may start with one.
  have hstrip : "#".toList.isPrefixOf? ("#" ++ path).toList = some path.toList := by
    rw [String.toList_append, List.isPrefixOf?_eq_some_iff_append_eq]
  rw [componentOf, hstrip, Option.getD_some, String.ofList_toList]

/-- A part with an id, a payload address and a digest fans out to these. -/
theorem fanoutPart_eq_ok {env : suit.Envelope} {i : ℕ} {segment : Bytes} {part : String}
    {outer inner : ContentHash} (hid : suit.componentId env i = some [segment, Text.utf8 part])
    (huri : suit.uri env i = some outer.toPrefixed)
    (hdigest : suit.imageDigest env i = some inner.bytes.toList) (component : String) :
    fanoutPart suit component env i = .ok ⟨part, outer, some inner⟩ := by
  simp [fanoutPart, hid, huri, hdigest, ContentHash.fromStr_toPrefixed, pure, Except.pure]

end Fanout

/-! ## Jobs -/

/-- Where ciphertext comes from. -/
abbrev BlobSource := ContentHash → Except Error Bytes

/-- Tower 2's blob store as a source; a blob it does not have is an error. -/
def softwareClient (getBlob : ContentHash → Except Error (Option Bytes)) : BlobSource :=
  fun outer => do
    match ← getBlob outer with
    | some bytes => return bytes
    | none => .error (.payloadMissing outer.toPrefixed)

/-- Whether the digest of a part is among those of the entity; a part without a digest is not. -/
def partHeld (entity : Entity) (p : L1Part) : Bool :=
  match p.inner with
  | some inner => entity.parts.any fun op => op.content == inner
  | none => false

/-- Whether the vehicle already holds every part the L2 declares. -/
def componentUnchanged (c : L1Component) (observed : Tree) : Bool :=
  match observed.get? c.component with
  | none => false
  | some entity => !c.parts.isEmpty && c.parts.all (partHeld entity)

/-- The payload of one part. -/
def payload (blobs : BlobSource) (p : L1Part) : Except Error Payload := do
  let bytes ← blobs p.outer
  return ⟨"#" ++ p.part, bytes⟩

/-- The payloads of a component: none if the vehicle holds it, else those of all parts. -/
def payloads (blobs : BlobSource) (c : L1Component) (observed : Tree) :
    Except Error (List Payload) :=
  if componentUnchanged c observed then .ok [] else c.parts.mapM (payload blobs)

/-- Whether the component is pushed: the allowlist has it and the vehicle advertises it. -/
def pushed (observed : Tree) (only : Option (List String)) (component : String) : Bool :=
  (only.all fun allow => allow.contains component) && observed.containsKey component

/-- Turn decoded L1 components into flash jobs. -/
def l1Jobs (blobs : BlobSource) (components : List L1Component) (observed : Tree)
    (only : Option (List String)) : Except Error (List FlashJob) :=
  match components with
  | [] => .ok []
  | c :: rest =>
    if pushed observed only c.component then do
      let ps ← payloads blobs c observed
      let jobs ← l1Jobs blobs rest observed only
      return ⟨c.component, none, c.envelope, ps⟩ :: jobs
    else l1Jobs blobs rest observed only

/-- The job of a component that is pushed. -/
def l1Job (blobs : BlobSource) (observed : Tree) (c : L1Component) : Except Error FlashJob := do
  let ps ← payloads blobs c observed
  return ⟨c.component, none, c.envelope, ps⟩

/-- The jobs are those of the components that are pushed, in order. -/
theorem l1Jobs_eq (blobs : BlobSource) (components : List L1Component) (observed : Tree)
    (only : Option (List String)) :
    l1Jobs blobs components observed only =
      (components.filter fun c => pushed observed only c.component).mapM
        (l1Job blobs observed) := by
  induction components with
  | nil => rfl
  | cons c components ih =>
    rw [l1Jobs, List.filter_cons]
    split
    · -- The job of this component, then those of the rest.
      rw [List.mapM_cons, ih, l1Job]
      simp
    · exact ih

/-- The addresses of the blobs that are fetched: those of all parts of the components that are
pushed and that the vehicle does not hold. -/
def fetched (components : List L1Component) (observed : Tree) (only : Option (List String)) :
    List ContentHash :=
  (components.filter fun c => pushed observed only c.component &&
    !componentUnchanged c observed).flatMap fun c => c.parts.map (·.outer)

/-- The jobs can be made iff every blob is fetched. -/
theorem exists_l1Jobs_iff {blobs : BlobSource} {components : List L1Component} {observed : Tree}
    {only : Option (List String)} :
    (∃ jobs, l1Jobs blobs components observed only = .ok jobs) ↔
      ∀ outer ∈ fetched components observed only, ∃ bytes, blobs outer = .ok bytes := by
  have hpayload : ∀ l : L1Part,
      (∃ q, payload blobs l = .ok q) ↔ ∃ bytes, blobs l.outer = .ok bytes := by
    intro l
    simp only [payload, Except.bind_eq_ok_iff, Except.pure_eq_ok_iff]
    constructor
    · rintro ⟨q, bytes, hbytes, -⟩
      exact ⟨bytes, hbytes⟩
    · rintro ⟨bytes, hbytes⟩
      exact ⟨_, bytes, hbytes, rfl⟩
  have hjob : ∀ c, (∃ job, l1Job blobs observed c = .ok job) ↔
      (componentUnchanged c observed = false →
        ∀ l ∈ c.parts, ∃ bytes, blobs l.outer = .ok bytes) := by
    intro c
    simp only [l1Job, Except.bind_eq_ok_iff, Except.pure_eq_ok_iff, payloads]
    cases hsame : componentUnchanged c observed with
    | true => simp
    | false => simp [Except.exists_mapM_eq_ok_iff, hpayload]
  rw [l1Jobs_eq, Except.exists_mapM_eq_ok_iff]
  simp only [hjob, fetched, List.mem_filter, List.mem_flatMap, List.mem_map, Bool.and_eq_true,
    Bool.not_eq_true']
  constructor
  · rintro h _ ⟨c, ⟨hc, hpushed, hchanged⟩, l, hl, rfl⟩
    exact h c ⟨hc, hpushed⟩ hchanged l hl
  · rintro h c ⟨hc, hpushed⟩ hchanged l hl
    exact h _ ⟨c, ⟨hc, hpushed, hchanged⟩, l, hl, rfl⟩

end Orchestrator
