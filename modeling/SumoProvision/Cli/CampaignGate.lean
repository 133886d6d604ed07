import SumoProvision.Orchestrator.ApplyPlan

/-!
# The campaign gate

`rig campaign` asks `campaign_has_work` whether there is anything to do. The gate joins two views of
the same trees: the parts that the flash plan ships, and the components that the assessment lists.
For a component that the release enables they agree, since every part that is shipped is a change.
For one that the release disables they need not: the assessment takes it as converged once it is not
reported enabled, while the flash plan still ships whatever its active bank does not hold.

`campaignHasWork_agrees_iff` says exactly when the gate and the assessment agree.
-/

namespace Cli

open Wire Orchestrator

/-! ## Definitions -/

/-- Whether the campaign has anything to do, for the component `only` if one is given. -/
def campaignHasWork (plan : ApplyPlan) (only : Option String) : Bool :=
  (plan.components.any fun c => !c.ship.isEmpty && only.all (· == c.entity)) ||
    plan.assessment.components.any fun c => only.all (· == c)

/-- The gate is open iff the assessment lists the component `only`, or any component without one. -/
def GateAgrees (plan : ApplyPlan) (observed desired : Tree) (only : Option String) : Prop :=
  campaignHasWork plan only = true ↔
    match only with
    | some id => id ∈ (assessTree observed desired).components
    | none => (assessTree observed desired).components ≠ []

/-- The state of a desired component asks for action. A disabled one does only while it is reported
enabled. -/
def NeedsAction (observed : Tree) (path : String) (des : Entity) : Prop :=
  if des.disabled then observed.adminDisabled path = some false
  else observed.get? path = none ∨ observed.adminDisabled path = some true ∨
    diffParts path ((observed.get? path).getD {}).parts des.parts ≠ []

/-- A part of a component that the release disables, and that is not reported enabled, is not on the
device under its id. -/
def LacksDisabledPart (observed : Tree) (path : String) (des : Entity) : Prop :=
  des.disabled = true ∧ observed.adminDisabled path ≠ some false ∧
    ∃ part ∈ des.parts, desiredChange ((observed.get? path).getD {}).parts part ≠ none

/-- No disabled component lacks a part, or another component needs action anyway. -/
def GateCondition (observed desired : Tree) : Option String → Prop
  | some id => ∀ des, desired.get? id = some des → ¬ LacksDisabledPart observed id des
  | none =>
    (∃ path des, desired.get? path = some des ∧ NeedsAction observed path des) ∨
      ∀ path des, desired.get? path = some des → ¬ LacksDisabledPart observed path des

/-! ## The two views -/

/-- The assessment lists the desired components that need action. -/
theorem mem_components_iff_needsAction {observed desired : Tree} {path : String} :
    path ∈ (assessTree observed desired).components ↔
      ∃ des, desired.get? path = some des ∧ NeedsAction observed path des := by
  rw [mem_components_iff]
  refine exists_congr fun des => and_congr_right fun _ => ?_
  simp only [NeedsAction]
  cases des.disabled <;> simp <;> tauto

/-- A part that is shipped belongs to a component that needs action, or that the release disables
and that is not reported enabled. -/
theorem needsAction_or_lacksDisabledPart {observed : Tree} {path : String} {des : Entity}
    (h : ∃ part ∈ des.parts, desiredChange ((observed.get? path).getD {}).parts part ≠ none) :
    NeedsAction observed path des ∨ LacksDisabledPart observed path des := by
  cases hd : des.disabled with
  | false =>
    -- What is shipped is a change, and a change of an enabled component needs action.
    obtain ⟨part, hpart, hchange⟩ := h
    have hne : diffParts path ((observed.get? path).getD {}).parts des.parts ≠ [] :=
      diffParts_ne_nil_of_desiredChange hpart hchange
    exact .inl (by simp [NeedsAction, hd, hne])
  | true =>
    by_cases hadmin : observed.adminDisabled path = some false
    · exact .inl (by simp [NeedsAction, hd, hadmin])
    · exact .inr ⟨hd, hadmin, h⟩

/-- What an open gate stands for: a component that needs action, or one that the release disables
and of which a part would be shipped. -/
theorem campaignHasWork_iff {hub : Hub} {target : ChannelTarget} {observed desired : Tree}
    {plan : ApplyPlan} (hdesired : hub.desired target = .ok desired)
    (hplan : applyPlan (.ok observed) hub target none = .ok plan) (only : Option String) :
    campaignHasWork plan only = true ↔
      ∃ path des, desired.get? path = some des ∧ only.all (· == path) = true ∧
        (NeedsAction observed path des ∨ LacksDisabledPart observed path des) := by
  have hships := exists_shipping_iff hdesired hplan fun path => only.all (· == path) = true
  have hlisted : plan.assessment = assessTree observed desired := by
    simp only [applyPlan, hdesired, Except.ok_bind, Except.bind_eq_ok_iff,
      Except.pure_eq_ok_iff] at hplan
    obtain ⟨components, -, rfl⟩ := hplan
    rfl
  have hopen : campaignHasWork plan only = true ↔
      (∃ c ∈ plan.components, c.ship ≠ [] ∧ only.all (· == c.entity) = true) ∨
        ∃ path ∈ (assessTree observed desired).components, only.all (· == path) = true := by
    simp [campaignHasWork, hlisted]
  rw [hopen, hships]
  constructor
  · rintro (⟨path, des, hdes, honly, hship⟩ | ⟨path, hmem, honly⟩)
    · exact ⟨path, des, hdes, honly, needsAction_or_lacksDisabledPart hship⟩
    · obtain ⟨des, hdes, hneeds⟩ := mem_components_iff_needsAction.mp hmem
      exact ⟨path, des, hdes, honly, .inl hneeds⟩
  · rintro ⟨path, des, hdes, honly, hneeds | hlacks⟩
    · exact .inr ⟨path, mem_components_iff_needsAction.mpr ⟨des, hdes, hneeds⟩, honly⟩
    · exact .inl ⟨path, des, hdes, honly, hlacks.2.2⟩

/-- A disabled component that is not reported enabled needs no action. -/
theorem not_needsAction_of_lacksDisabledPart {observed : Tree} {path : String} {des : Entity}
    (h : LacksDisabledPart observed path des) : ¬ NeedsAction observed path des := by
  simp [NeedsAction, h.1, h.2.1]

/-! ## When the gate agrees -/

/-- The gate agrees with the assessment iff no component that the release disables, and that is not
reported enabled, lacks a part on the device; without a chosen component it also agrees if some
component needs action. A vehicle that has converged is reported as up to date under the same
condition. -/
theorem campaignHasWork_agrees_iff (hub : Hub) (target : ChannelTarget) (observed desired : Tree)
    (only : Option String) (plan : ApplyPlan) (hdesired : hub.desired target = .ok desired)
    (hplan : applyPlan (.ok observed) hub target none = .ok plan) :
    (GateAgrees plan observed desired only ↔ GateCondition observed desired only) ∧
      ((assessTree observed desired).isConverged = true →
        (campaignHasWork plan only = false ↔ GateCondition observed desired only)) := by
  have hopen := campaignHasWork_iff hdesired hplan only
  have hagrees : GateAgrees plan observed desired only ↔ GateCondition observed desired only := by
    cases only with
    | some id =>
      have hopen : campaignHasWork plan (some id) = true ↔
          ∃ des, desired.get? id = some des ∧
            (NeedsAction observed id des ∨ LacksDisabledPart observed id des) := by
        simpa using hopen
      simp only [GateAgrees, GateCondition, hopen, mem_components_iff_needsAction]
      constructor
      · rintro h des hdes hlacks
        obtain ⟨des', hdes', hneeds⟩ := h.mp ⟨des, hdes, .inr hlacks⟩
        obtain rfl : des' = des := Option.some.inj (hdes'.symm.trans hdes)
        exact not_needsAction_of_lacksDisabledPart hlacks hneeds
      · intro h
        refine exists_congr fun des => and_congr_right fun hdes => ?_
        simp [h des hdes]
    | none =>
      have hlist : (assessTree observed desired).components ≠ [] ↔
          ∃ path des, desired.get? path = some des ∧ NeedsAction observed path des := by
        simp only [← mem_components_iff_needsAction]
        exact ⟨List.exists_mem_of_ne_nil _, fun ⟨path, hpath⟩ => List.ne_nil_of_mem hpath⟩
      simp only [GateAgrees, GateCondition, hopen, hlist, Option.all_none, true_and]
      constructor
      · intro h
        by_cases hneeds : ∃ path des, desired.get? path = some des ∧ NeedsAction observed path des
        · exact .inl hneeds
        · exact .inr fun path des hdes hlacks => hneeds (h.mp ⟨path, des, hdes, .inr hlacks⟩)
      · rintro (hneeds | hnone)
        · obtain ⟨path, des, hdes, hneeds⟩ := hneeds
          exact iff_of_true ⟨path, des, hdes, .inl hneeds⟩ ⟨path, des, hdes, hneeds⟩
        · refine exists_congr fun path => exists_congr fun des => and_congr_right fun hdes => ?_
          simp [hnone path des hdes]
  refine ⟨hagrees, fun hconverged => ?_⟩
  -- Nothing is listed, so to agree is to be closed.
  rw [← hagrees]
  simp only [GateAgrees, isConverged_iff.mp hconverged]
  cases only <;> simp

/-- A hub that has one tree for every target and no artifact. -/
def hubOf (tree : Tree) : Hub where
  vehicleReleaseTree _ _ := .ok (some tree)
  channelTargetTree _ _ _ := .ok (some tree)
  artifactExists _ := .ok none

/-- With a new kernel for an enabled component the gate agrees. -/
theorem campaignHasWork_agrees_new_kernel :
    let observed : Tree := .ofList [("vm1", { kind := "vm" })]
    let desired : Tree := .ofList [("vm1",
      { kind := "vm", parts := [⟨"file", "kernel", ⟨Vector.replicate 32 7⟩⟩] })]
    let target : ChannelTarget := ⟨"bleeding", none, none, none, none⟩
    ∃ plan, applyPlan (.ok observed) (hubOf desired) target none = .ok plan ∧
      GateAgrees plan observed desired (some "vm1") := by
  intro observed desired target
  refine ⟨_, rfl, (campaignHasWork_agrees_iff (hubOf desired) target observed desired (some "vm1")
    _ rfl rfl).1.mpr ?_⟩
  intro des hdes hlacks
  obtain rfl : des = _ := Option.some.inj (hdes.symm.trans rfl)
  exact absurd hlacks.1 (by decide)

/-- A component that the release disables, that is reported disabled and that does not hold the
kernel of the release: the assessment is converged, but the gate is open. -/
theorem campaignHasWork_not_agrees :
    let observed : Tree := .ofList [("vm1", { kind := "vm", adminDisabled := some true })]
    let desired : Tree := .ofList [("vm1",
      { kind := "vm", parts := [⟨"file", "kernel", ⟨Vector.replicate 32 7⟩⟩], disabled := true })]
    let target : ChannelTarget := ⟨"bleeding", none, none, none, none⟩
    ∃ plan, applyPlan (.ok observed) (hubOf desired) target none = .ok plan ∧
      (assessTree observed desired).isConverged = true ∧
      campaignHasWork plan none = true ∧ ¬ GateAgrees plan observed desired none := by
  intro observed desired target
  refine ⟨_, rfl, by decide, by decide, ?_⟩
  simp only [GateAgrees]
  decide

end Cli
