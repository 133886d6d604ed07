import SumoProvision.Orchestrator.Dispatch

/-!
# Which campaigns fan out

`fanout_l1` is handed whatever a tower signed. The device pairs the payloads of a component with the
parts of its manifest by position, so a part that is dropped or moved would be flashed in the place
of another one. `fanoutL1_strict` says that this never happens: the fan-out fails on every manifest
that does not name an id and a content address for each of its parts, and otherwise gives all of
them, in order. Only a manifest that disables its component and carries no firmware has no parts.
-/

namespace Orchestrator

open Wire

variable {suit : Suit}

/-! ## Definitions -/

/-- The manifest disables its component and has nothing to push. -/
def DisableShaped (env : suit.Envelope) : Prop :=
  suit.hasDisableTarget env = true ∧ suit.hasFirmware env = false

instance (env : suit.Envelope) : Decidable (DisableShaped env) :=
  inferInstanceAs (Decidable (_ ∧ _))

/-- The manifest has for its component `i` a second id segment and a content address. -/
def WellFormedPart (env : suit.Envelope) (i : ℕ) : Prop :=
  (∃ ids segment, suit.componentId env i = some ids ∧ ids[1]? = some segment) ∧
    ∃ uri outer, suit.uri env i = some uri ∧ ContentHash.fromStr uri = .ok outer

/-- The integrated payload is a manifest that fans out. -/
def WellFormedL2 (suit : Suit) (l2 : Bytes) : Prop :=
  ∃ env, suit.decodeEnvelope l2 = .ok env ∧
    (DisableShaped env ∨ ∀ i < suit.componentCount env, WellFormedPart env i)

/-- The part is made of component `i` of the manifest. -/
structure PartFrom (env : suit.Envelope) (i : ℕ) (p : L1Part) : Prop where
  part : ∃ ids segment, suit.componentId env i = some ids ∧ ids[1]? = some segment ∧
    p.part = Text.fromUtf8Lossy segment
  outer : ∃ uri, suit.uri env i = some uri ∧ ContentHash.fromStr uri = .ok p.outer
  inner : ∀ h, p.inner = some h ↔ suit.imageDigest env i = some h.bytes.toList
  /-- The digest is there iff the manifest has one of 32 bytes. -/
  inner_isSome : p.inner.isSome = true ↔
    ∃ digest, suit.imageDigest env i = some digest ∧ digest.length = 32

/-- The slice is the one of an integrated payload. -/
structure SliceFrom (suit : Suit) (l2 : String × Bytes) (c : L1Component) : Prop where
  component : c.component = componentOf l2.1
  envelope : c.envelope = l2.2
  parts : ∃ env, suit.decodeEnvelope l2.2 = .ok env ∧
    if DisableShaped env then c.parts = []
    else c.parts.length = suit.componentCount env ∧
      ∀ i (h : i < c.parts.length), PartFrom env i c.parts[i]

/-! ## Parts -/

section Parts

variable {env : suit.Envelope} {i : ℕ}

/-- A part fans out to what the manifest has for it. -/
theorem fanoutPart_eq_ok_iff {component : String} {p : L1Part} :
    fanoutPart suit component env i = .ok p ↔
      ∃ segment uri, (suit.componentId env i).bind (·[1]?) = some segment ∧
        suit.uri env i = some uri ∧ p.part = Text.fromUtf8Lossy segment ∧
        ContentHash.fromStr uri = .ok p.outer ∧
        p.inner = (suit.imageDigest env i).bind ContentHash.ofBytes? := by
  -- The three exits of the loop body, in its order.
  cases hsegment : (suit.componentId env i).bind (·[1]?) with
  | none => simp [fanoutPart, hsegment]
  | some segment =>
    cases huri : suit.uri env i with
    | none => simp [fanoutPart, hsegment, huri]
    | some uri =>
      cases houter : ContentHash.fromStr uri with
      | error e => simp [fanoutPart, hsegment, huri, houter]
      | ok outer =>
        cases p
        simp [fanoutPart, hsegment, huri, houter, eq_comm]

/-- What a part is that fans out. -/
theorem partFrom_of_fanoutPart {component : String} {p : L1Part}
    (h : fanoutPart suit component env i = .ok p) : PartFrom env i p := by
  obtain ⟨segment, uri, hsegment, huri, hpart, houter, hinner⟩ := fanoutPart_eq_ok_iff.mp h
  obtain ⟨ids, hids, hget⟩ := Option.bind_eq_some_iff.mp hsegment
  refine ⟨⟨ids, segment, hids, hget, hpart⟩, ⟨uri, huri, houter⟩, fun h => ?_, ?_⟩
  · simp [hinner, Option.bind_eq_some_iff, ContentHash.ofBytes?_eq_some_iff]
  · rw [hinner]
    cases suit.imageDigest env i with
    | none => simp
    | some digest => simp [ContentHash.isSome_ofBytes?_iff]

/-- A part fans out iff the manifest has an id and a content address for it. -/
theorem exists_fanoutPart_iff (component : String) :
    (∃ p, fanoutPart suit component env i = .ok p) ↔ WellFormedPart env i := by
  constructor
  · rintro ⟨p, hp⟩
    obtain ⟨ids, segment, hids, hget, -⟩ := (partFrom_of_fanoutPart hp).part
    obtain ⟨uri, huri, houter⟩ := (partFrom_of_fanoutPart hp).outer
    exact ⟨⟨ids, segment, hids, hget⟩, uri, p.outer, huri, houter⟩
  · rintro ⟨⟨ids, segment, hids, hget⟩, uri, outer, huri, houter⟩
    exact ⟨⟨Text.fromUtf8Lossy segment, outer, _⟩, fanoutPart_eq_ok_iff.mpr
      ⟨segment, uri, by rw [hids, Option.bind_some, hget], huri, rfl, houter, rfl⟩⟩

end Parts

/-! ## Slices -/

section Slices

variable {key : String} {l2 : Bytes}

theorem partCount_of_disableShaped {env : suit.Envelope} (h : DisableShaped env) :
    partCount suit env = 0 := by
  simp [partCount, h.1, h.2]

theorem partCount_of_not_disableShaped {env : suit.Envelope} (h : ¬ DisableShaped env) :
    partCount suit env = suit.componentCount env := by
  rw [partCount, if_neg]
  simpa [DisableShaped] using h

/-- A slice fans out to a part for each component of the manifest. -/
theorem fanoutComponent_eq_ok_iff {c : L1Component} :
    fanoutComponent suit key l2 = .ok c ↔
      ∃ env, suit.decodeEnvelope l2 = .ok env ∧ c.component = componentOf key ∧ c.envelope = l2 ∧
        List.Forall₂ (fun i p => fanoutPart suit (componentOf key) env i = .ok p)
          (List.range (partCount suit env)) c.parts := by
  simp only [fanoutComponent, Except.bind_eq_ok_iff, Except.mapError_eq_ok_iff,
    Except.pure_eq_ok_iff, Except.mapM_eq_ok_iff]
  constructor
  · rintro ⟨env, hdecode, parts, hparts, rfl⟩
    exact ⟨env, hdecode, rfl, rfl, hparts⟩
  · rintro ⟨env, hdecode, hcomponent, henvelope, hparts⟩
    exact ⟨env, hdecode, c.parts, hparts, by rw [← hcomponent, ← henvelope]⟩

/-- What a slice is that fans out. -/
theorem sliceFrom_of_fanoutComponent {c : L1Component}
    (h : fanoutComponent suit key l2 = .ok c) : SliceFrom suit (key, l2) c := by
  obtain ⟨env, hdecode, hcomponent, henvelope, hparts⟩ := fanoutComponent_eq_ok_iff.mp h
  obtain ⟨hlength, hget⟩ := List.forall₂_iff_get.mp hparts
  rw [List.length_range] at hlength
  refine ⟨hcomponent, henvelope, env, hdecode, ?_⟩
  split
  next hdisable =>
    rw [partCount_of_disableShaped hdisable] at hlength
    exact List.length_eq_zero_iff.mp hlength.symm
  next hdisable =>
    rw [partCount_of_not_disableShaped hdisable] at hlength
    refine ⟨hlength.symm, fun i hi => ?_⟩
    -- The loop runs over the indices of the manifest, so part `i` is made of component `i`.
    have hi' : i < (List.range (partCount suit env)).length := by
      rw [List.length_range, partCount_of_not_disableShaped hdisable]
      omega
    have hpart := hget i hi' hi
    rw [List.get_eq_getElem, List.getElem_range] at hpart
    exact partFrom_of_fanoutPart hpart

/-- A slice fans out iff its manifest is well formed. -/
theorem exists_fanoutComponent_iff (key : String) :
    (∃ c, fanoutComponent suit key l2 = .ok c) ↔ WellFormedL2 suit l2 := by
  constructor
  · rintro ⟨c, hc⟩
    obtain ⟨env, hdecode, -, -, hparts⟩ := fanoutComponent_eq_ok_iff.mp hc
    refine ⟨env, hdecode, or_iff_not_imp_left.mpr fun hdisable i hi => ?_⟩
    rw [← partCount_of_not_disableShaped hdisable, ← List.mem_range] at hi
    obtain ⟨p, -, hp⟩ := hparts.flip.exists_left hi
    exact (exists_fanoutPart_iff _).mp ⟨p, hp⟩
  · rintro ⟨env, hdecode, hwell⟩
    obtain ⟨parts, hparts⟩ : ∃ parts, (List.range (partCount suit env)).mapM
        (fanoutPart suit (componentOf key) env) = .ok parts := by
      simp only [Except.exists_mapM_eq_ok_iff, exists_fanoutPart_iff, List.mem_range]
      intro i hi
      by_cases hdisable : DisableShaped env
      · rw [partCount_of_disableShaped hdisable] at hi
        omega
      · rw [partCount_of_not_disableShaped hdisable] at hi
        exact hwell.resolve_left hdisable i hi
    exact ⟨⟨componentOf key, l2, parts⟩, fanoutComponent_eq_ok_iff.mpr
      ⟨env, hdecode, rfl, rfl, Except.mapM_eq_ok_iff.mp hparts⟩⟩

end Slices

/-- A decoded campaign fans out iff each of its integrated manifests decodes and either disables its
component without firmware, or has an id and a content address for every part. The result has one
slice for each integrated manifest, in the order of their keys, with the bytes of the manifest and
all its parts in order. -/
theorem fanoutL1_strict (l1 : Bytes) (campaign : suit.Envelope)
    (h : suit.decodeEnvelope l1 = .ok campaign) :
    let l2s := (suit.integratedPayloads campaign).toList
    ((∃ components, fanoutL1 suit l1 = .ok components) ↔ ∀ l2 ∈ l2s, WellFormedL2 suit l2.2) ∧
      ∀ components, fanoutL1 suit l1 = .ok components →
        List.Forall₂ (SliceFrom suit) l2s components := by
  intro l2s
  have hfanout : fanoutL1 suit l1 = l2s.mapM fun l2 => fanoutComponent suit l2.1 l2.2 := by
    rw [fanoutL1, h]
    rfl
  rw [hfanout]
  constructor
  · simp only [Except.exists_mapM_eq_ok_iff, exists_fanoutComponent_iff]
  · intro components hcomponents
    exact (Except.mapM_eq_ok_iff.mp hcomponents).imp fun _ _ => sliceFrom_of_fanoutComponent

/-- An image with one part, whose digest is not one of 32 bytes, and a manifest that disables its
component. -/
theorem fanoutL1_strict_two_manifests :
    let outer : ContentHash := ⟨Vector.replicate 32 1⟩
    let image : Bytes := 0 :: frames [frames
      [frames [Text.utf8 "vm1", Text.utf8 "kernel"], Text.utf8 outer.toPrefixed, [7]]]
    let disable : Bytes := 2 :: frames [Text.utf8 "vm2"]
    let l1 : Bytes := 1 :: frames
      [frames [Text.utf8 "#vm1", image], frames [Text.utf8 "#vm2", disable]]
    ∃ components, fanoutL1 .framed l1 = .ok components ∧
      List.Forall₂ (SliceFrom .framed) [("#vm1", image), ("#vm2", disable)] components := by
  intro outer image disable l1
  let campaign : Suit.framed.Envelope := (1, unframes l1.tail)
  have hpayloads : (Suit.framed.integratedPayloads campaign).toList =
      [("#vm1", image), ("#vm2", disable)] := by decide +kernel
  obtain ⟨hiff, hslices⟩ := fanoutL1_strict l1 campaign rfl
  rw [hpayloads] at hiff hslices
  have himage : WellFormedL2 .framed image := by
    refine ⟨(0, unframes image.tail), rfl, .inr fun i hi => ?_⟩
    obtain rfl : i = 0 := by
      have hcount : Suit.framed.componentCount (0, unframes image.tail) = 1 := by decide +kernel
      omega
    exact ⟨⟨[Text.utf8 "vm1", Text.utf8 "kernel"], Text.utf8 "kernel", by decide +kernel, rfl⟩,
      outer.toPrefixed, outer, by decide +kernel, ContentHash.fromStr_toPrefixed outer⟩
  have hdisable : WellFormedL2 .framed disable :=
    ⟨(2, unframes disable.tail), rfl, .inl ⟨rfl, rfl⟩⟩
  obtain ⟨components, hcomponents⟩ := hiff.mpr (by
    simp only [List.forall_mem_cons]
    exact ⟨himage, hdisable, by simp⟩)
  exact ⟨components, hcomponents, hslices components hcomponents⟩

end Orchestrator
