import SumoProvision.Orchestrator.Dispatch
import SumoProvision.SoftwareTower.Campaign

/-!
# Dispatch from end to end

The tower decides from the vehicle's report which components to emit, and passes the decision
through a signed L1; the orchestrator decodes it and makes its own decision from the same report.
This module shows that the two line up for every pair of trees: `jobs_of_campaign` says exactly
which flash jobs come of a successful answer of the tower, and what each of them carries.
-/

namespace Orchestrator

open Wire SoftwareTower

variable {suit : Suit} {signer : Signer suit} {index : ContentHash → Option ArtifactEntry}
  {req : L1Recipient}

/-- What the orchestrator makes of the tower's answer: nothing of 204, else the jobs of the L1. -/
def dispatch (suit : Suit) (blobs : BlobSource) (response : L1Response) (observed : Tree)
    (only : Option (List String)) : Except Error (List FlashJob) :=
  match response with
  | .noContent => .ok []
  | .cbor l1 => do
    let components ← fanoutL1 suit l1
    l1Jobs blobs components observed only

/-! ## The slices of a campaign -/

/-- The L1 part is the release part: its id, its digest, and the address of its ciphertext. -/
def PartOf (index : ContentHash → Option ArtifactEntry) (p : Part) (l : L1Part) : Prop :=
  l.part = p.id ∧ l.inner = some p.content ∧ ∃ entry, index p.content = some entry ∧
    l.outer = entry.outer

/-- The slice is the one of an emitted component: its own L2, and all parts unless it is disabled.
-/
def SliceOf (signer : Signer suit) (index : ContentHash → Option ArtifactEntry) (req : L1Recipient)
    (c : String × Entity) (s : L1Component) : Prop :=
  s.component = c.1 ∧ buildL2 signer index req c.1 c.2 = .ok s.envelope ∧
    if c.2.disabled then s.parts = [] else List.Forall₂ (PartOf index) c.2.parts s.parts

/-- A disable manifest fans out without parts. -/
theorem fanout_disable {path : String} {entity : Entity} {l2 : Bytes}
    (hdisabled : entity.disabled = true) (h : buildL2 signer index req path entity = .ok l2) :
    fanoutComponent suit ("#" ++ path) l2 = .ok ⟨path, l2, []⟩ := by
  have hbuild : signer.buildDisableEnvelope path req.seq = .ok l2 := by
    simpa [buildL2, hdisabled] using h
  obtain ⟨env, hdecode, htarget, hfirmware⟩ := suit.decode_disable hbuild
  simp [fanoutComponent, hdecode, partCount, htarget, hfirmware, pure, Except.pure]

/-- An image fans out with its parts, in order. -/
theorem fanout_image {path : String} {entity : Entity} {l2 : Bytes}
    (henabled : entity.disabled = false) (hids : (entity.parts.map (·.id)).Nodup)
    (h : buildL2 signer index req path entity = .ok l2) :
    ∃ parts, fanoutComponent suit ("#" ++ path) l2 = .ok ⟨path, l2, parts⟩ ∧
      List.Forall₂ (PartOf index) entity.parts parts := by
  obtain ⟨specs, hspecs, hbuild⟩ := buildImage_of_buildL2 henabled h
  obtain ⟨hlength, hget⟩ := List.forall₂_iff_get.mp hspecs
  have hnodup : (specs.map (·.id)).Nodup := by
    -- The ids of the manifest components are `[path, part id]`, so they are as distinct as the
    -- parts.
    have hmap : entity.parts.map ((fun id => [path, id]) ∘ (·.id)) = specs.map (·.id) :=
      (hspecs.imp fun p spec hspec => hspec.1.symm).map_eq_map
    rw [← hmap, ← List.map_map]
    exact hids.map fun a b hab => by simpa using hab
  obtain ⟨env, hdecode, htarget, hcount, hcomponent⟩ := suit.decode_image hnodup hbuild
  -- The orchestrator reads the manifest by index: number `i` is part `i` of the entity.
  have hparts : ∀ i ∈ List.range specs.length, ∃ l, fanoutPart suit path env i = .ok l ∧
      ∃ hi : i < entity.parts.length, PartOf index entity.parts[i] l := by
    intro i hi
    have hi' : i < specs.length := List.mem_range.mp hi
    obtain ⟨hid, huri, hdigest⟩ := hcomponent i hi'
    obtain ⟨hspecId, hspecDigest, entry, hentry, hspecUri⟩ := hget i (by omega) hi'
    rw [List.get_eq_getElem] at hspecId hspecDigest hspecUri
    rw [hspecId] at hid
    rw [hspecUri] at huri
    rw [hspecDigest] at hdigest
    exact ⟨_, fanoutPart_eq_ok hid huri hdigest path, by omega, rfl, rfl, entry, hentry, rfl⟩
  obtain ⟨parts, hmapM, hpartOf⟩ := Except.exists_mapM_eq_ok hparts
  refine ⟨parts, ?_, ?_⟩
  · simp [fanoutComponent, hdecode, partCount, htarget, hcount, hmapM, pure,
      Except.pure]
  · obtain ⟨hlength', hget'⟩ := List.forall₂_iff_get.mp hpartOf
    rw [List.length_range] at hlength'
    refine List.forall₂_iff_get.mpr ⟨by omega, fun i hi hi' => ?_⟩
    obtain ⟨_, hpart⟩ := hget' i (by simpa using by omega) hi'
    simpa using hpart

/-- Every emitted component fans out to its slice. -/
theorem fanout_l2 {c : String × Entity} {l2 : Bytes} (hids : (c.2.parts.map (·.id)).Nodup)
    (h : buildL2 signer index req c.1 c.2 = .ok l2) :
    ∃ s, fanoutComponent suit ("#" ++ c.1) l2 = .ok s ∧ SliceOf signer index req c s := by
  cases hdisabled : c.2.disabled with
  | true => exact ⟨_, fanout_disable hdisabled h, rfl, h, by simp [hdisabled]⟩
  | false =>
    obtain ⟨parts, hfanout, hparts⟩ := fanout_image hdisabled hids h
    exact ⟨_, hfanout, rfl, h, by simpa [hdisabled] using hparts⟩

theorem append_lt_append_iff {p a b : String} : p ++ a < p ++ b ↔ a < b := by
  rw [String.lt_iff_toList_lt, String.lt_iff_toList_lt, String.toList_append, String.toList_append]
  induction p.toList with
  | nil => rfl
  | cons c p ih => rw [List.cons_append, List.cons_append, List.cons_lt_cons_self, ih]

/-- The campaign of a list of components fans out to one slice for each of them, in the order of
their paths. -/
theorem fanoutL1_of_campaign {components : List (String × Entity)} {l2s : List (String × Bytes)}
    {l1 : Bytes} (hpaths : (components.map (·.1)).Nodup)
    (hids : ∀ c ∈ components, (c.2.parts.map (·.id)).Nodup)
    (hl2s : buildL2s signer index req components = .ok l2s)
    (hl1 : signer.buildCampaign l2s req.seq = .ok l1) :
    ∃ slices, fanoutL1 suit l1 = .ok slices ∧ (slices.map (·.component)).Pairwise (· < ·) ∧
      (∀ s ∈ slices, ∃ c ∈ components, SliceOf signer index req c s) ∧
      ∀ c ∈ components, c.1 ∈ slices.map (·.component) := by
  have hbuilt := forall₂_of_buildL2s hl2s
  -- The paths are distinct, so no integrated payload replaces another one in the map.
  have hnames : components.map (·.1) = l2s.map (·.1) :=
    (hbuilt.imp fun c l2 h => h.1.symm).map_eq_map
  obtain ⟨env, hdecode, hpayloads⟩ := suit.decode_campaign (hnames ▸ hpaths) hl1
  -- Every integrated payload is the L2 of one component, under that component's name.
  have hslice : ∀ entry ∈ (suit.integratedPayloads env).toList,
      ∃ s, fanoutComponent suit entry.1 entry.2 = .ok s ∧ entry.1 = "#" ++ s.component ∧
        ∃ c ∈ components, SliceOf signer index req c s := by
    rintro ⟨key, l2⟩ hmem
    rw [OrderedMap.mem_toList, hpayloads] at hmem
    obtain ⟨named, hnamed, heq⟩ := List.mem_map.mp (OrderedMap.mem_of_getElem?_ofList hmem)
    cases heq
    obtain ⟨c, hc, hname, hl2⟩ := hbuilt.exists_left hnamed
    obtain ⟨s, hs, hof⟩ := fanout_l2 (hids c hc) hl2
    rw [hname]
    exact ⟨s, hs, by rw [hof.1], c, hc, hof⟩
  obtain ⟨slices, hmapM, hslices⟩ := Except.exists_mapM_eq_ok hslice
  have hkeys : (suit.integratedPayloads env).toList.map (·.1) =
      slices.map fun s => "#" ++ s.component :=
    (hslices.imp fun entry s h => h.1).map_eq_map
  refine ⟨slices, ?_, ?_, ?_, ?_⟩
  · simp [fanoutL1, hdecode, hmapM]
  · -- The map iterates in the order of its keys, and the common `#` does not change that.
    have hsorted := List.pairwise_map.mpr
      (OrderedMap.pairwise_lt_toList (suit.integratedPayloads env))
    rw [hkeys, List.pairwise_map] at hsorted
    exact List.pairwise_map.mpr (hsorted.imp append_lt_append_iff.mp)
  · intro s hs
    obtain ⟨entry, -, -, hof⟩ := hslices.exists_left hs
    exact hof
  · intro c hc
    have hkey : "#" ++ c.1 ∈ (suit.integratedPayloads env).toList.map (·.1) := by
      rw [hpayloads, OrderedMap.mem_keys_toList_ofList, List.map_map]
      have hname : c.1 ∈ l2s.map (·.1) := hnames ▸ List.mem_map_of_mem hc
      obtain ⟨l2, hl2, heq⟩ := List.mem_map.mp hname
      exact List.mem_map.mpr ⟨l2, hl2, by simp [heq]⟩
    rw [hkeys, List.mem_map] at hkey
    obtain ⟨s, hs, heq⟩ := hkey
    rw [← String.append_right_inj "#" |>.mp heq]
    exact List.mem_map_of_mem hs

/-! ## The jobs of a campaign -/

/-- Every content of the desired entity is among those of the observed one. -/
def Carried (obs des : Entity) : Prop :=
  ∀ p ∈ des.parts, ∃ op ∈ obs.parts, op.content = p.content

instance (obs des : Entity) : Decidable (Carried obs des) :=
  inferInstanceAs (Decidable (∀ p ∈ des.parts, ∃ op ∈ obs.parts, op.content = p.content))

/-- The payload of a part: named after it, with the bytes of its own ciphertext blob. -/
def PayloadOf (index : ContentHash → Option ArtifactEntry) (blobs : ContentHash → Option Bytes)
    (p : Part) (q : Payload) : Prop :=
  q.uri = "#" ++ p.id ∧ ∃ entry, index p.content = some entry ∧ blobs entry.outer = some q.bytes

/-- Every part of the entity has an index entry, and its ciphertext is in the blob store. -/
def Stocked (index : ContentHash → Option ArtifactEntry) (blobs : ContentHash → Option Bytes)
    (e : Entity) : Prop :=
  ∀ p ∈ e.parts, ∃ entry bytes, index p.content = some entry ∧ blobs entry.outer = some bytes

/-- The orchestrator pushes no payloads iff the slice has parts and the vehicle carries them all:
the join of the tower, on the digests that came through the manifest. -/
theorem componentUnchanged_iff {c : String × Entity} {s : L1Component} {observed : Tree}
    {obs : Entity} (hof : SliceOf signer index req c s) (hobs : observed.get? c.1 = some obs) :
    componentUnchanged s observed = true ↔
      c.2.disabled = false ∧ c.2.parts ≠ [] ∧ Carried obs c.2 := by
  obtain ⟨hcomponent, -, hparts⟩ := hof
  rw [componentUnchanged, hcomponent, hobs]
  cases hdisabled : c.2.disabled with
  | true =>
    rw [if_pos hdisabled] at hparts
    simp [hparts]
  | false =>
    rw [if_neg (by simp [hdisabled])] at hparts
    -- The slice has the parts of the entity one by one, so both sides ask the same question.
    have hempty : s.parts ≠ [] ↔ c.2.parts ≠ [] := by
      rw [ne_eq, ne_eq, ← List.length_eq_zero_iff, ← List.length_eq_zero_iff, hparts.length_eq]
    have hcarried : Carried obs c.2 ↔ ∀ l ∈ s.parts, partHeld obs l = true :=
      hparts.forall_mem_iff fun p l hpart => by simp [partHeld, hpart.2.1]
    simp only [hcarried, ← hempty, Bool.and_eq_true, Bool.not_eq_true', List.isEmpty_eq_false_iff,
      List.all_eq_true, true_and]

/-- The payloads of a slice: none for a disabled component and for one the vehicle carries, else one
for each part, in order. -/
theorem payloads_of_slice {blobs : ContentHash → Option Bytes} {c : String × Entity}
    {s : L1Component} {observed : Tree} {obs : Entity} (hof : SliceOf signer index req c s)
    (hobs : observed.get? c.1 = some obs) (hempty : c.2.disabled = false → c.2.parts ≠ [])
    (hstocked : Stocked index blobs c.2) :
    ∃ ps, payloads (softwareClient fun outer => .ok (blobs outer)) s observed = .ok ps ∧
      if c.2.disabled = true ∨ Carried obs c.2 then ps = []
      else List.Forall₂ (PayloadOf index blobs) c.2.parts ps := by
  have hunchanged := componentUnchanged_iff hof hobs
  obtain ⟨-, -, hparts⟩ := hof
  cases hdisabled : c.2.disabled with
  | true =>
    rw [if_pos hdisabled] at hparts
    -- A disabled component has no parts in its slice, whatever the entity lists.
    exact ⟨[], by simp [payloads, hparts, pure, Except.pure], by simp⟩
  | false =>
    rw [if_neg (by simp [hdisabled])] at hparts
    by_cases hcarried : Carried obs c.2
    · have hsame := hunchanged.mpr ⟨hdisabled, hempty hdisabled, hcarried⟩
      exact ⟨[], by simp [payloads, hsame], by simp [hcarried]⟩
    · have hchanged : componentUnchanged s observed = false := by
        rw [← Bool.not_eq_true, hunchanged]
        exact fun h => hcarried h.2.2
      have hpayload : ∀ p ∈ c.2.parts, ∀ l, PartOf index p l →
          ∃ q, payload (softwareClient fun outer => .ok (blobs outer)) l = .ok q ∧
            PayloadOf index blobs p q := by
        rintro p hp l ⟨hid, -, entry, hentry, houter⟩
        obtain ⟨entry', bytes, hentry', hbytes⟩ := hstocked p hp
        obtain rfl : entry' = entry := Option.some.inj (hentry'.symm.trans hentry)
        refine ⟨⟨"#" ++ p.id, bytes⟩, ?_, rfl, entry', hentry, hbytes⟩
        simp [payload, softwareClient, houter, hbytes, hid, pure, Except.pure]
      obtain ⟨ps, hps, hof⟩ := Except.exists_mapM_eq_ok_of_forall₂ hparts hpayload
      exact ⟨ps, by rw [payloads, hchanged]; exact hps, by simpa [hcarried] using hof⟩

/-- The job of an emitted component that the vehicle advertises. -/
structure JobOf (signer : Signer suit) (index : ContentHash → Option ArtifactEntry)
    (blobs : ContentHash → Option Bytes) (req : L1Recipient) (obs des : Entity) (job : FlashJob) :
    Prop where
  gatewayId : job.gatewayId = none
  /-- The component's own L2, verbatim. -/
  envelope : buildL2 signer index req job.componentId des = .ok job.envelope
  payloads : if des.disabled = true ∨ Carried obs des then job.payloads = []
    else List.Forall₂ (PayloadOf index blobs) des.parts job.payloads

/-- The slices of emitted components make one job for each that is pushed. -/
theorem jobs_of_slices (blobs : ContentHash → Option Bytes) (observed : Tree)
    (only : Option (List String)) {components : List (String × Entity)} {slices : List L1Component}
    (hslices : ∀ s ∈ slices, ∃ c ∈ components, SliceOf signer index req c s)
    (hempty : ∀ c ∈ components, c.2.disabled = false → c.2.parts ≠ [])
    (hstocked : ∀ c ∈ components, Stocked index blobs c.2) :
    ∃ jobs, l1Jobs (softwareClient fun outer => .ok (blobs outer)) slices observed only = .ok jobs ∧
      jobs.map (·.componentId) = (slices.map (·.component)).filter (pushed observed only) ∧
      ∀ job ∈ jobs, ∃ c ∈ components, c.1 = job.componentId ∧ ∃ obs,
        observed.get? c.1 = some obs ∧ JobOf signer index blobs req obs c.2 job := by
  have hjob : ∀ s ∈ slices.filter fun s => pushed observed only s.component,
      ∃ job, l1Job (softwareClient fun outer => .ok (blobs outer)) observed s = .ok job ∧
        s.component = job.componentId ∧ ∃ c ∈ components, c.1 = job.componentId ∧ ∃ obs,
          observed.get? c.1 = some obs ∧ JobOf signer index blobs req obs c.2 job := by
    intro s hs
    -- A pushed component is advertised, so there is an observed entity to compare with.
    obtain ⟨hs, hpushed⟩ := List.mem_filter.mp hs
    obtain ⟨c, hc, hof⟩ := hslices s hs
    rw [pushed, Bool.and_eq_true, hof.1] at hpushed
    obtain ⟨obs, hobs⟩ := Tree.containsKey_iff.mp hpushed.2
    obtain ⟨ps, hps, hpayloads⟩ := payloads_of_slice hof hobs (hempty c hc) (hstocked c hc)
    refine ⟨⟨s.component, none, s.envelope, ps⟩, ?_, rfl, c, hc, hof.1.symm, obs, hobs, rfl, ?_,
      hpayloads⟩
    · simp [l1Job, hps, pure, Except.pure]
    · rw [hof.1]
      exact hof.2.1
  obtain ⟨jobs, hmapM, hjobs⟩ := Except.exists_mapM_eq_ok hjob
  refine ⟨jobs, by rw [l1Jobs_eq, hmapM], ?_, fun job hmem => ?_⟩
  · rw [List.filter_map]
    exact (hjobs.imp fun s job h => h.1).map_eq_map.symm
  · obtain ⟨s, -, -, hof⟩ := hjobs.exists_left hmem
    exact hof

/-! ## From the tower to the vehicle -/

/-- An enabled component that the tower emits has parts, and if the vehicle carries them all, it
reports the component disabled. -/
theorem enabled_of_emitted {observed : Tree} {path : String} {des : Entity}
    (hclass : l1Class (some observed) path des = some .included ∨
      l1Class (some observed) path des = some .disabled) (henabled : des.disabled = false) :
    des.parts ≠ [] ∧ ∀ obs, observed.get? path = some obs → Carried obs des →
      obs.adminDisabled = some true := by
  rcases hclass with hincluded | hdisabled
  · obtain ⟨-, hparts, hcause⟩ := l1Class_eq_included_iff.mp hincluded
    refine ⟨hparts, fun obs hobs hcarried => ?_⟩
    -- It was not left out although every content is there, so its state must be the cause.
    rw [← Tree.adminDisabled_of_get? hobs]
    exact hcause.resolve_right (by rw [(entityAgreed_iff hobs).mpr hcarried]; simp)
  · rw [(l1Class_eq_disabled_iff.mp hdisabled).1] at henabled
    cases henabled

theorem pushed_iff {observed : Tree} {only : Option (List String)} {path : String} :
    pushed observed only path = true ↔
      (∀ allow, only = some allow → path ∈ allow) ∧ observed.containsKey path = true := by
  cases only <;> simp [pushed]

/-- From the tower to the vehicle. Let every entity of the target have distinct part ids, an index
entry for each part and its ciphertext in the blob store, and let no signature fail. Then either the
target is empty, or the tower answers and the orchestrator makes jobs of the answer: in ascending
order one for each emitted component that the vehicle advertises and the allowlist has. Each job
carries the component's own L2, and no payloads if the component is disabled or all its contents are
on the vehicle, else the ciphertext of all its parts in order. -/
theorem jobs_of_campaign (signer : Signer suit) (index : ContentHash → Option ArtifactEntry)
    (blobs : ContentHash → Option Bytes) (req : L1Recipient) (desired observed : Tree)
    (only : Option (List String))
    (hids : ∀ path e, desired.get? path = some e → (e.parts.map (·.id)).Nodup)
    (hstocked : ∀ path e, desired.get? path = some e → Stocked index blobs e)
    (hsigned : ∀ failure,
      assembleL1 signer index req desired (some observed) ≠ .error (.internal failure)) :
    (assembleL1 signer index req desired (some observed) = .error .notFound ∧
      emittedPaths desired (some observed) = [] ∧
      (partitionL1Components desired (some observed)).skipped = []) ∨
    ∃ response jobs, assembleL1 signer index req desired (some observed) = .ok response ∧
      dispatch suit (softwareClient fun outer => .ok (blobs outer)) response observed only =
        .ok jobs ∧
      (jobs.map (·.componentId)).Pairwise (· < ·) ∧
      (∀ path, path ∈ jobs.map (·.componentId) ↔
        path ∈ emittedPaths desired (some observed) ∧ observed.containsKey path = true ∧
          ∀ allow, only = some allow → path ∈ allow) ∧
      ∀ job ∈ jobs, ∃ obs des, observed.get? job.componentId = some obs ∧
        desired.get? job.componentId = some des ∧ JobOf signer index blobs req obs des job ∧
        (des.disabled = false → Carried obs des → obs.adminDisabled = some true) := by
  have hindexed : ∀ path e, desired.get? path = some e → ∀ p ∈ e.parts, index p.content ≠ none := by
    intro path e he p hp
    obtain ⟨entry, bytes, hentry, -⟩ := hstocked path e he p hp
    simp [hentry]
  rcases exists_ok_or_notFound_of_indexed hindexed hsigned with ⟨response, hresponse⟩ | hnotFound
  · refine .inr ⟨response, ?_⟩
    -- 204 emits nothing and makes no jobs. Otherwise the slices of the L1 are those of the emitted
    -- components, and each decision of the orchestrator is read off its slice.
    rcases assembleL1_eq_ok hresponse with ⟨rfl, hnone⟩ | ⟨l2s, l1, rfl, hl2s, hl1⟩
    · refine ⟨[], hresponse, rfl, by simp, ?_, by simp⟩
      simp [emittedPaths, hnone]
    · obtain ⟨slices, hfanout, hsorted, hslices, hcomplete⟩ := fanoutL1_of_campaign
        (nodup_emittedPaths desired (some observed))
        (fun c hc => hids _ _ (mem_emitted.mp hc).1) hl2s hl1
      obtain ⟨jobs, hjobs, hpushed, hof⟩ := jobs_of_slices blobs observed only hslices
        (fun c hc henabled => (enabled_of_emitted (mem_emitted.mp hc).2 henabled).1)
        (fun c hc => hstocked _ _ (mem_emitted.mp hc).1)
      refine ⟨jobs, hresponse, ?_, ?_, fun path => ?_, fun job hjob => ?_⟩
      · simp [dispatch, hfanout, hjobs]
      · rw [hpushed]
        exact hsorted.filter _
      · have hemitted : path ∈ slices.map (·.component) ↔
            path ∈ emittedPaths desired (some observed) := by
          simp only [emittedPaths, List.mem_map]
          constructor
          · rintro ⟨s, hs, rfl⟩
            obtain ⟨c, hc, hsliceOf⟩ := hslices s hs
            exact ⟨c, hc, hsliceOf.1.symm⟩
          · rintro ⟨c, hc, rfl⟩
            exact List.mem_map.mp (hcomplete c hc)
        rw [hpushed, List.mem_filter, pushed_iff, hemitted]
        tauto
      · obtain ⟨c, hc, hid, obs, hobs, hjobOf⟩ := hof job hjob
        obtain ⟨hdes, hclass⟩ := mem_emitted.mp hc
        rw [← hid]
        exact ⟨obs, c.2, hobs, hdes, hjobOf, fun henabled hcarried =>
          (enabled_of_emitted hclass henabled).2 obs hobs hcarried⟩
  · exact .inl hnotFound

/-- A vehicle that lacks a part of `vm1`, has `vm2` still enabled, and carries `vm3` but disabled:
the tower emits all three, and there is one job for each that the allowlist has. -/
theorem jobs_of_campaign_three_components :
    let kernel : ContentHash := ⟨Vector.replicate 32 1⟩
    let rootfs : ContentHash := ⟨Vector.replicate 32 2⟩
    let outer (inner : ContentHash) : ContentHash := ⟨inner.bytes.map (· + 16)⟩
    let index (inner : ContentHash) : Option ArtifactEntry :=
      some ⟨inner, outer inner, Vector.replicate 16 3, Vector.replicate 12 4, 5⟩
    let blobs (outer : ContentHash) : Option Bytes := some (outer.bytes.toList.take 5)
    let signer : Signer .framed := ⟨(), 0⟩
    let req : L1Recipient := ⟨[], "device", 1⟩
    let desired := Tree.ofList
      [("vm1", { kind := "vm", parts := [⟨"file", "kernel", kernel⟩, ⟨"file", "rootfs", rootfs⟩] }),
        ("vm2", { kind := "vm", disabled := true }),
        ("vm3", { kind := "vm", parts := [⟨"file", "kernel", kernel⟩] })]
    let observed := Tree.ofList
      [("vm1", { parts := [⟨"file", "boot.img", kernel⟩] }),
        ("vm2", { adminDisabled := some false }),
        ("vm3", { parts := [⟨"file", "boot.img", kernel⟩], adminDisabled := some true })]
    let only := some ["vm3", "vm1"]
    emittedPaths desired (some observed) = ["vm1", "vm3", "vm2"] ∧
    ∃ response jobs, assembleL1 signer index req desired (some observed) = .ok response ∧
      dispatch .framed (softwareClient fun outer => .ok (blobs outer)) response observed only =
        .ok jobs ∧
      (jobs.map (·.componentId)).Pairwise (· < ·) ∧
      (∀ path, path ∈ jobs.map (·.componentId) ↔ path = "vm1" ∨ path = "vm3") ∧
      ∀ job ∈ jobs, ∃ obs des, observed.get? job.componentId = some obs ∧
        desired.get? job.componentId = some des ∧ JobOf signer index blobs req obs des job := by
  intro kernel rootfs outer index blobs signer req desired observed only
  have hemitted : emittedPaths desired (some observed) = ["vm1", "vm3", "vm2"] := by decide +kernel
  have hadvertised : ∀ path ∈ ["vm1", "vm3"], observed.containsKey path = true := by decide +kernel
  have hentities : ∀ c ∈ desired.toList, (c.2.parts.map (·.id)).Nodup := by decide +kernel
  have hok : (assembleL1 signer index req desired (some observed)).isOk = true := by decide +kernel
  rcases jobs_of_campaign signer index blobs req desired observed only
    (fun path e he => hentities (path, e) (Tree.mem_toList.mpr he))
    (fun _ _ _ p _ => ⟨_, _, rfl, rfl⟩)
    (fun failure h => by rw [h] at hok; cases hok) with
    ⟨-, hnone, -⟩ | ⟨response, jobs, hresponse, hjobs, hsorted, hpaths, hof⟩
  · rw [hemitted] at hnone
    cases hnone
  · refine ⟨hemitted, response, jobs, hresponse, hjobs, hsorted, fun path => ?_, fun job hjob => ?_⟩
    · rw [hpaths, hemitted]
      constructor
      · rintro ⟨-, -, hallowed⟩
        simpa [or_comm] using hallowed _ rfl
      · intro hpath
        have hmem : path ∈ ["vm1", "vm3"] := by simpa using hpath
        refine ⟨?_, hadvertised path hmem, ?_⟩
        · rcases hpath with rfl | rfl <;> simp
        · intro allow hallow
          obtain rfl : ["vm3", "vm1"] = allow := Option.some.inj hallow
          simpa [or_comm] using hpath
    · obtain ⟨obs, des, hobs, hdes, hjobOf, -⟩ := hof job hjob
      exact ⟨obs, des, hobs, hdes, hjobOf⟩

end Orchestrator
