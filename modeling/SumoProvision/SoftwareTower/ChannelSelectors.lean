import SumoProvision.SoftwareTower.Channels

/-!
# The two lookups of a channel

`channel_target_vehicle` and `get_channel_target` both look a channel up with an optional device and
an optional architecture. The first uses them only if both are supplied, and otherwise takes the
single target of the channel; the second filters by each that is supplied.

`selector_respected_iff` says for which catalogs and selectors the first lookup respects what is
supplied and the second one agrees with it.
-/

namespace SoftwareTower

variable {Value : Type}

/-! ## Definitions -/

/-- The row is of the channel, and of the device and architecture wherever they are supplied. -/
def ChannelTarget.Selected (t : ChannelTarget) (channel : String)
    (device architecture : Option String) : Prop :=
  t.channel = channel ∧ (∀ d ∈ device, t.device = d) ∧ ∀ a ∈ architecture, t.architecture = a

instance (t : ChannelTarget) (channel : String) (device architecture : Option String) :
    Decidable (t.Selected channel device architecture) :=
  inferInstanceAs (Decidable (_ ∧ _ ∧ _))

/-- `get_channel_target` reports the row. -/
def Reports (order : RowOrder) (x : Server Value) (sel : TargetSelector) (t : ChannelTarget) :
    Prop :=
  ∃ state release, ((getChannelTarget sel).run (catalogDb order) [] x).1 = .ok state ∧
    state.device = some t.device ∧ state.architecture = some t.architecture ∧
    state.vehicle = some release ∧ state.targetRelease = some release ∧
    release.id = t.vehicleReleaseId ∧ state.treeHash = some t.treeHash

/-- A release that the first lookup resolves to is that of a row that the selector admits, and the
second lookup reports that row. -/
def SelectorRespected (order : RowOrder) (x : Server Value) (sel : TargetSelector) : Prop :=
  ∀ channel ∈ sel.channel, ∀ v,
    ((channelTargetVehicle channel sel.device sel.architecture).run (catalogDb order) [] x).1 =
      .ok (some v) →
    ∃ t ∈ x.committed.channelTargets.rows,
      t.Selected channel sel.device sel.architecture ∧ t.vehicleReleaseId = v ∧
        Reports order x sel t

/-- If the device or the architecture is missing and the channel has one target only, then what is
supplied is that of the target. -/
def SingleTargetSelected (c : Catalog Value) (sel : TargetSelector) : Prop :=
  ∀ channel ∈ sel.channel, ∀ t, c.targetsOf channel = [t] →
    (sel.device = none ∨ sel.architecture = none) →
      t.Selected channel sel.device sel.architecture

/-! ## The lookups -/

section

variable {order : RowOrder} {x : Server Value}

theorem Catalog.mem_targetsOf {c : Catalog Value} {channel : String} {t : ChannelTarget} :
    t ∈ c.targetsOf channel ↔ t ∈ c.channelTargets.rows ∧ t.channel = channel := by
  simp [Catalog.targetsOf]

/-- A row that is the only one which the selector admits is the only one that is selected. -/
theorem Catalog.selectedTargets_eq {c : Catalog Value} {channel : String}
    {device architecture : Option String} {t : ChannelTarget} (ht : t ∈ c.channelTargets.rows)
    (hselected : t.Selected channel device architecture)
    (honly : ∀ t' ∈ c.channelTargets.rows, t'.Selected channel device architecture → t' = t) :
    ∃ r, r.id = t.vehicleReleaseId ∧
      c.selectedTargets channel device architecture = [(t, r)] := by
  obtain ⟨r, hr, hid⟩ := c.channelRelease t ht
  have hrelease : c.releases.vehicleRelease t.vehicleReleaseId = some r :=
    Db.vehicleRelease_eq_some_iff.mpr ⟨hr, hid⟩
  refine ⟨r, hid, ?_⟩
  have hfilter : ((c.targetsOf channel).filter fun t =>
      (∀ d ∈ device, t.device = d) ∧ ∀ a ∈ architecture, t.architecture = a) = [t] := by
    rw [Catalog.targetsOf, List.filter_filter]
    refine Table.filter_eq_singleton (fun r => ⟨rfl, rfl, rfl⟩) ht ?_ fun t' ht' hp => ?_
    · simpa [ChannelTarget.Selected, and_comm] using hselected
    · exact honly t' ht' (by simpa [ChannelTarget.Selected, and_comm] using hp)
  rw [Catalog.selectedTargets, hfilter]
  simp [hrelease]

/-- The second lookup reports a row that is the only one which the selector admits. -/
theorem reports_of_only {sel : TargetSelector} {channel : String}
    (hchannel : sel.channel = some channel) {t : ChannelTarget}
    (ht : t ∈ x.committed.channelTargets.rows)
    (hselected : t.Selected channel sel.device sel.architecture)
    (honly : ∀ t' ∈ x.committed.channelTargets.rows,
      t'.Selected channel sel.device sel.architecture → t' = t) :
    Reports order x sel t := by
  obtain ⟨r, hid, hrows⟩ := Catalog.selectedTargets_eq ht hselected honly
  have hexec : (catalogDb order).exec (.latestTarget channel sel.device sel.architecture) x =
      (.ok (some (t, r)), x) := by
    rw [exec_latestTarget, Server.read_eq_ok_iff, hrows, List.argmax_singleton]
    refine ⟨?_, rfl, rfl⟩
    -- What is bound are texts of the row.
    obtain ⟨htext, hdevice, harchitecture, -⟩ := x.committed.channelTexts t ht
    obtain ⟨rfl, hd, ha⟩ := hselected
    rintro s hs
    simp only [List.mem_cons, List.mem_append, Option.mem_toList] at hs
    rcases hs with rfl | hs | hs
    · exact htext
    · exact hd s hs ▸ hdevice
    · exact ha s hs ▸ harchitecture
  let release : VehicleRef := ⟨r.id, r.tag, r.version, r.createdAt⟩
  have hrun : (getChannelTarget sel).run (catalogDb order) [] x =
      (.ok ⟨channel, some t.device, some t.architecture, some release, some release,
        some t.treeHash, r.configSnapshot⟩, [], x) := by
    rw [getChannelTarget, hchannel]
    exact Prog.run_bind_of_ok (run_perform_nil hexec) _
  exact ⟨_, release, congrArg Prod.fst hrun, rfl, rfl, rfl, rfl, hid, rfl⟩

/-- With a device and an architecture, the first lookup resolves to the release of the row with that
key. -/
theorem channelTargetVehicle_some_iff {channel device architecture : String} {v : ℤ} :
    ((channelTargetVehicle channel (some device) (some architecture)).run (catalogDb order) []
      x).1 = .ok (some v) ↔
    ∃ t, x.committed.findTarget channel device architecture = some t ∧ t.vehicleReleaseId = v := by
  constructor
  · intro h
    obtain ⟨rest, y, hrun⟩ : ∃ rest y, (channelTargetVehicle channel (some device)
        (some architecture)).run (catalogDb order) [] x = (.ok (some v), rest, y) :=
      ⟨_, _, Prod.ext h rfl⟩
    obtain ⟨-, hfind, -⟩ := of_run_perform_eq_ok hrun (exec_selectTarget order x _ _ _)
    exact Option.map_eq_some_iff.mp (Except.ok.inj hfind)
  · rintro ⟨t, hfind, rfl⟩
    obtain ⟨ht, rfl, rfl, rfl⟩ := Catalog.findTarget_eq_some_iff.mp hfind
    obtain ⟨hchannel, hdevice, harchitecture, -⟩ := x.committed.channelTexts t ht
    refine congrArg Prod.fst (run_perform_nil (s := .selectTarget _ _ _) ?_)
    rw [exec_selectTarget, Server.read_eq_ok_iff, hfind]
    exact ⟨by simpa using ⟨hchannel, hdevice, harchitecture⟩, rfl, rfl⟩

/-- Without one of them, it resolves to the release of the single row of the channel. -/
theorem channelTargetVehicle_none_iff {channel : String} {device architecture : Option String}
    (hmissing : device = none ∨ architecture = none) {v : ℤ} :
    ((channelTargetVehicle channel device architecture).run (catalogDb order) [] x).1 =
      .ok (some v) ↔
    ∃ t, x.committed.targetsOf channel = [t] ∧ t.vehicleReleaseId = v := by
  have hprog : (channelTargetVehicle channel device architecture :
      Prog (catalogSql Value) AppError (Option ℤ)) = singleTarget channel := by
    rcases hmissing with rfl | rfl
    · rfl
    · cases device <;> rfl
  -- A selector that is not full falls back to the single target of the channel.
  rw [hprog]
  constructor
  · intro h
    obtain ⟨rest, y, hrun⟩ : ∃ rest y, (singleTarget channel).run (catalogDb order) [] x =
        (.ok (some v), rest, y) := ⟨_, _, Prod.ext h rfl⟩
    obtain ⟨rows, _, _, hselect, hret⟩ := Prog.run_bind_eq_ok_iff.mp hrun
    obtain ⟨-, hrows, -⟩ := of_run_perform_eq_ok hselect (exec_selectTargets order x channel)
    obtain rfl := Except.ok.inj hrows
    have hv := Except.ok.inj (congrArg Prod.fst hret)
    by_cases hone : (x.committed.targetsOf channel).length = 1
    · obtain ⟨t, ht⟩ := List.length_eq_one_iff.mp hone
      exact ⟨t, ht, by simpa [ht] using hv⟩
    · simp [hone] at hv
  · rintro ⟨t, hrows, rfl⟩
    have ht : t ∈ x.committed.targetsOf channel := by simp [hrows]
    obtain ⟨hmem, rfl⟩ := Catalog.mem_targetsOf.mp ht
    have hexec : (catalogDb order).exec (.selectTargets t.channel) x =
        (.ok [t.vehicleReleaseId], x) := by
      rw [exec_selectTargets, Server.read_eq_ok_iff, hrows]
      exact ⟨by simpa using (x.committed.channelTexts t hmem).1, rfl, rfl⟩
    exact congrArg Prod.fst (Prog.run_bind_of_ok (run_perform_nil hexec) _)

end

/-- A channel selector is respected, and the two lookups agree, iff what is supplied of a device and
an architecture alone is that of the single target of the channel. -/
theorem selector_respected_iff (order : RowOrder) (x : Server Value) (sel : TargetSelector) :
    SelectorRespected order x sel ↔ SingleTargetSelected x.committed sel := by
  constructor
  · intro h channel hchannel t hrows hmissing
    obtain ⟨t', ht', hselected, -⟩ := h channel hchannel t.vehicleReleaseId
      ((channelTargetVehicle_none_iff hmissing).mpr ⟨t, hrows, rfl⟩)
    -- The row that the release comes from is one of the channel, and there is only one.
    have hmem : t' ∈ x.committed.targetsOf channel :=
      Catalog.mem_targetsOf.mpr ⟨ht', hselected.1⟩
    rw [hrows, List.mem_singleton] at hmem
    exact hmem ▸ hselected
  · intro h channel hchannel v hv
    by_cases hmissing : sel.device = none ∨ sel.architecture = none
    · obtain ⟨t, hrows, rfl⟩ := (channelTargetVehicle_none_iff hmissing).mp hv
      have ht : t ∈ x.committed.targetsOf channel := by simp [hrows]
      obtain ⟨ht, -⟩ := Catalog.mem_targetsOf.mp ht
      have hselected := h channel hchannel t hrows hmissing
      refine ⟨t, ht, hselected, rfl, reports_of_only hchannel ht hselected fun t' ht' hs => ?_⟩
      have hmem := Catalog.mem_targetsOf.mpr ⟨ht', hs.1⟩
      rwa [hrows, List.mem_singleton] at hmem
    · rw [not_or] at hmissing
      obtain ⟨d, hd⟩ := Option.ne_none_iff_exists'.mp hmissing.1
      obtain ⟨a, ha⟩ := Option.ne_none_iff_exists'.mp hmissing.2
      rw [hd, ha] at hv
      obtain ⟨t, hfind, rfl⟩ := channelTargetVehicle_some_iff.mp hv
      obtain ⟨ht, hkey⟩ := Catalog.findTarget_eq_some_iff.mp hfind
      have hselected : t.Selected channel sel.device sel.architecture := by
        rw [hd, ha]
        simpa [ChannelTarget.Selected, eq_comm] using hkey
      refine ⟨t, ht, hselected, rfl, reports_of_only hchannel ht hselected fun t' ht' hs => ?_⟩
      have hfind' : x.committed.findTarget channel d a = some t' := by
        rw [hd, ha] at hs
        refine Catalog.findTarget_eq_some_iff.mpr ⟨ht', ?_⟩
        simpa [ChannelTarget.Selected, eq_comm] using hs
      exact Option.some.inj (hfind'.symm.trans hfind)

/-- A channel with one target, for the device `rig`. -/
def oneTarget : Server Unit :=
  let emptyHash := "sha256:e3b0c44298fc1c149afbf4c8996fb92427ae41e4649b934ca495991b7852b855"
  let db : Db Unit := (Db.empty id).addVehicleRelease ⟨1, "rig", "1", 0, some emptyHash, none⟩ rfl
    (by simp [Table.Free, Db.empty])
  let c : Catalog Unit := (Catalog.empty sampleClocks).withReleases db
    (by simp [Catalog.empty, Db.empty])
  ⟨c.addChannelTarget ⟨"stable", "rig", "arm64", 1, emptyHash, 0⟩ (by decide) (by decide)
    (by decide), none⟩

/-- A lookup for the device `emulated` alone resolves to the release of the device `rig`. -/
theorem selector_not_respected :
    ¬ ∀ (order : RowOrder) (x : Server Unit) (sel : TargetSelector),
      SelectorRespected order x sel := by
  intro h
  have hrows : oneTarget.committed.targetsOf "stable" = [⟨"stable", "rig", "arm64", 1,
      "sha256:e3b0c44298fc1c149afbf4c8996fb92427ae41e4649b934ca495991b7852b855", 0⟩] := by decide
  obtain ⟨t, ht, ⟨hchannel, hdevice, -⟩, -⟩ := h .insertion oneTarget
    ⟨some "stable", some "emulated", none, none, none⟩ "stable" rfl 1
    ((channelTargetVehicle_none_iff (.inr rfl)).mpr ⟨_, hrows, rfl⟩)
  have hmem : t ∈ oneTarget.committed.targetsOf "stable" :=
    Catalog.mem_targetsOf.mpr ⟨ht, hchannel⟩
  rw [hrows, List.mem_singleton] at hmem
  rw [hmem] at hdevice
  exact absurd (hdevice "emulated" rfl) (by decide)

end SoftwareTower
