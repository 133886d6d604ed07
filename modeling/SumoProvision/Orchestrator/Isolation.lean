import SumoProvision.Orchestrator.Dispatch
import SumoProvision.SoftwareTower.Partition
import SumoProvision.Wire.FlashPlan

/-!
# Isolation of components

A component is never sourced from another one's bank, and no decision about a component looks at
another one. This is a statement about two runs: if the observed and the desired tree have the same
entity at a path in both, everything that is computed for that path is the same, whatever else the
trees contain.

Each of the functions has an equation that gives its result for a path in terms of the two entities
there; `component_isolated` follows from these.
-/

namespace SoftwareTower

open Wire

/-- The class that the result of the partition gives to a path. -/
def L1Partition.classAt (partition : L1Partition) (path : String) : Option L1Class :=
  if path ∈ partition.included.map (·.1) then some .included
  else if path ∈ partition.disabled.map (·.1) then some .disabled
  else if path ∈ partition.skipped then some .skipped
  else none

/-- The partition gives a path the class of the target's entity there. -/
theorem classAt_partitionL1Components (tree : Tree) (reported : Option Tree) (path : String) :
    (partitionL1Components tree reported).classAt path =
      (tree.get? path).bind (l1Class reported path) := by
  simp only [L1Partition.classAt, List.mem_map, Prod.exists, exists_and_right, exists_eq_right,
    mem_included, mem_disabled, mem_skipped]
  cases hget : tree.get? path with
  | none => simp
  | some e => rcases hclass : l1Class reported path e with _ | _ | _ | _ <;> simp [hclass]

/-- The class of an entity depends on the report only through what it has at the path. -/
theorem l1Class_congr {reported reported' : Tree} {path : String}
    (h : reported.get? path = reported'.get? path) (e : Entity) :
    l1Class (some reported) path e = l1Class (some reported') path e := by
  have hadmin : reported.adminDisabled path = reported'.adminDisabled path := by
    rw [Tree.adminDisabled, h, Tree.adminDisabled]
  have hagreed : entityAgreed reported path e = entityAgreed reported' path e := by
    rw [entityAgreed, h, entityAgreed]
  simp only [l1Class, Option.bind_some, hadmin, hagreed]

end SoftwareTower

namespace Orchestrator

open Wire SoftwareTower

/-! ## Two runs -/

/-- Two pairs of trees that have the same entities at a path give it the same planned parts, the
same part changes, the same place in the assessment, the same class in the L1 with and without a
report, and the same answer to whether the vehicle holds an L2 for it. -/
theorem component_isolated (path : String) (observed₁ desired₁ observed₂ desired₂ : Tree)
    (hobserved : observed₁.get? path = observed₂.get? path)
    (hdesired : desired₁.get? path = desired₂.get? path) :
    (flashPlan observed₁ desired₁).parts.filter (fun p => p.entity = path) =
        (flashPlan observed₂ desired₂).parts.filter (fun p => p.entity = path) ∧
      (diff observed₁ desired₁).parts.filter (fun c => c.entity = path) =
        (diff observed₂ desired₂).parts.filter (fun c => c.entity = path) ∧
      (path ∈ (assessTree observed₁ desired₁).components ↔
        path ∈ (assessTree observed₂ desired₂).components) ∧
      (partitionL1Components desired₁ (some observed₁)).classAt path =
        (partitionL1Components desired₂ (some observed₂)).classAt path ∧
      (partitionL1Components desired₁ none).classAt path =
        (partitionL1Components desired₂ none).classAt path ∧
      ∀ c : L1Component, c.component = path →
        componentUnchanged c observed₁ = componentUnchanged c observed₂ := by
  refine ⟨?_, ?_, ?_, ?_, ?_, ?_⟩
  · rw [filter_flashPlan, filter_flashPlan, hobserved, hdesired]
  · rw [filter_diff, filter_diff, Tree.partsAt, Tree.partsAt, hobserved, hdesired, Tree.partsAt,
      Tree.partsAt]
  · rw [mem_components_iff, mem_components_iff, Tree.adminDisabled, Tree.adminDisabled, hobserved,
      hdesired]
  · rw [classAt_partitionL1Components, classAt_partitionL1Components, hdesired]
    exact congrArg _ (funext (l1Class_congr hobserved))
  · rw [classAt_partitionL1Components, classAt_partitionL1Components, hdesired]
  · rintro c rfl
    rw [componentUnchanged, hobserved, componentUnchanged]

/-- Another component that holds the same content changes nothing for `vm1`. -/
theorem component_isolated_other_kernel :
    let kernel : Part := ⟨"file", "kernel", ⟨Vector.replicate 32 7⟩⟩
    let vm1 : String × Entity := ("vm1", { kind := "vm" })
    let vm2 : String × Entity := ("vm2", { kind := "vm", parts := [kernel] })
    let desired : Tree := .ofList [("vm1", { kind := "vm", parts := [kernel] })]
    (flashPlan (.ofList [vm1]) desired).parts.filter (fun p => p.entity = "vm1") =
      (flashPlan (.ofList [vm1, vm2]) desired).parts.filter (fun p => p.entity = "vm1") := by
  intro kernel vm1 vm2 desired
  exact (component_isolated "vm1" (.ofList [vm1]) desired (.ofList [vm1, vm2]) desired rfl rfl).1

end Orchestrator
