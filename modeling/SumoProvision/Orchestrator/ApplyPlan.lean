import SumoProvision.Orchestrator.Dispatch
import SumoProvision.SoftwareTower.Content
import SumoProvision.Wire.FlashPlan

/-!
# The apply plan

`apply_plan` is the read-only preview of an update: it reads the rig, resolves the desired tree, and
puts the flash plan of each component together with what Tower 2 can serve of it. Next to the
components it carries the convergence assessment of the same two trees.

The rig and Tower 2 are parameters. `exists_shipping_iff` says which components a plan ships
something for.
-/

namespace Orchestrator

open Wire SoftwareTower

/-! ## Definitions -/

/-- Where a part's content lives in Tower 2. -/
structure BlobRef where
  outer : ContentHash
  size : ℕ
  deriving DecidableEq

/-- One part to ship, with its blob unless Tower 2 does not have the content. -/
structure ShipPart where
  part : String
  kind : String
  content : ContentHash
  blob : Option BlobRef
  deriving DecidableEq

/-- One component's slice of the plan: what ships, and how many parts the device reuses. -/
structure ComponentApply where
  entity : String
  version : Option String
  ship : List ShipPart
  reuse : ℕ
  /-- The rollback capability the device reports. -/
  supportsRollback : Option Bool
  deriving DecidableEq

/-- The plan to bring a rig to the desired state of a target. -/
structure ApplyPlan where
  channel : String
  components : List ComponentApply
  assessment : ConvergenceAssessment
  deriving DecidableEq

/-- Which target to resolve: a vehicle release, or a channel that may be narrowed. -/
structure ChannelTarget where
  channel : String
  device : Option String
  architecture : Option String
  vehicleReleaseId : Option Int64
  treeHash : Option String
  deriving DecidableEq

/-- The label of a target in diagnostics. -/
def ChannelTarget.label (target : ChannelTarget) : String :=
  match target.vehicleReleaseId with
  | some id => s!"vehicle release {id}"
  | none =>
    match target.device, target.architecture with
    | none, none => target.channel
    | device, architecture =>
      let dev := device.getD "*"
      let arch := architecture.getD "*"
      s!"{target.channel} (device={dev}, architecture={arch})"

/-- The calls of Tower 2 that the plan makes. -/
structure Hub where
  vehicleReleaseTree : Int64 → Option String → Except Error (Option Tree)
  channelTargetTree : String → Option String → Option String → Except Error (Option Tree)
  artifactExists : ContentHash → Except Error (Option ArtifactRef)

/-- The desired tree of a target. -/
def Hub.desired (hub : Hub) (target : ChannelTarget) : Except Error Tree := do
  let found ← match target.vehicleReleaseId with
    | some id => hub.vehicleReleaseTree id target.treeHash
    | none => hub.channelTargetTree target.channel target.device target.architecture
  match found with
  | some tree => return tree
  | none => .error (.channelNotFound target.label)

/-- The loop over the planned parts of one component: what ships, and how much is reused. -/
def shipAndReuse (hub : Hub) (acc : List ShipPart × ℕ) (p : PlannedPart) :
    Except Error (List ShipPart × ℕ) :=
  match p.plan with
  | .reuse => .ok (acc.1, acc.2 + 1)
  | .ship => do
    let blob := (← hub.artifactExists p.content).map fun a => ⟨a.outer, a.size⟩
    return (acc.1 ++ [⟨p.part, p.kind, p.content, blob⟩], acc.2)

/-- The loop over the desired components; those outside the allowlist and those without parts are
left out. -/
def planComponents (hub : Hub) (observed : Tree) (plan : FlashPlan) (only : Option (List String)) :
    List (String × Entity) → Except Error (List ComponentApply)
  | [] => .ok []
  | (path, entity) :: rest =>
    if only.all (·.contains path) then do
      let (ship, reuse) ← (plan.parts.filter (·.entity = path)).foldlM (shipAndReuse hub) ([], 0)
      let components ← planComponents hub observed plan only rest
      if !ship.isEmpty || reuse > 0 then
        let mode := (observed.get? path).bind (·.updateMode)
        return ⟨path, entity.version, ship, reuse, mode.map (·.supportsRollback)⟩ :: components
      else return components
    else planComponents hub observed plan only rest

/-- Plan how to bring the rig to the desired state of a target. -/
def applyPlan (readRigState : Except Error Tree) (hub : Hub) (target : ChannelTarget)
    (only : Option (List String)) : Except Error ApplyPlan := do
  let observed ← readRigState
  let desired ← hub.desired target
  let components ← planComponents hub observed (flashPlan observed desired) only desired.toList
  return ⟨target.channel, components, assessTree observed desired⟩

/-! ## What a plan ships -/

/-- The loop over planned parts ships something iff one of them is to be shipped. -/
theorem ship_ne_nil_iff {hub : Hub} {parts : List PlannedPart} {acc out : List ShipPart × ℕ}
    (h : parts.foldlM (shipAndReuse hub) acc = .ok out) :
    out.1 ≠ [] ↔ acc.1 ≠ [] ∨ ∃ p ∈ parts, p.plan = .ship := by
  induction parts generalizing acc with
  | nil =>
    obtain rfl : acc = out := by simpa using h
    simp
  | cons p parts ih =>
    rw [List.foldlM_cons, Except.bind_eq_ok_iff] at h
    obtain ⟨mid, hmid, hrest⟩ := h
    rw [ih hrest]
    cases hp : p.plan with
    | reuse =>
      simp only [shipAndReuse, hp] at hmid
      obtain rfl := Except.ok.inj hmid
      simp [hp]
    | ship =>
      simp only [shipAndReuse, hp, Except.bind_eq_ok_iff] at hmid
      obtain ⟨found, -, hmid⟩ := hmid
      obtain rfl := Except.pure_eq_ok_iff.mp hmid
      simp [hp]

/-- The plan ships something for a component with some property iff the loop meets a component with
that property of which a part is to be shipped. -/
theorem exists_mem_planComponents_iff {hub : Hub} {observed : Tree} {plan : FlashPlan}
    {only : Option (List String)} {entries : List (String × Entity)} {out : List ComponentApply}
    (h : planComponents hub observed plan only entries = .ok out) (P : String → Prop) :
    (∃ c ∈ out, c.ship ≠ [] ∧ P c.entity) ↔
      ∃ e ∈ entries, only.all (·.contains e.1) = true ∧ P e.1 ∧
        ∃ p ∈ plan.parts, p.entity = e.1 ∧ p.plan = .ship := by
  induction entries generalizing out with
  | nil =>
    obtain rfl := Except.ok.inj h
    simp
  | cons e entries ih =>
    obtain ⟨path, entity⟩ := e
    rw [planComponents] at h
    split at h
    next hall =>
      simp only [Except.bind_eq_ok_iff, Prod.exists] at h
      obtain ⟨ship, reuse, hloop, components, hcomponents, hout⟩ := h
      have hship := ship_ne_nil_iff hloop
      simp only [List.mem_filter, decide_eq_true_eq, ne_eq, not_true_eq_false, false_or,
        and_assoc] at hship
      rw [List.exists_mem_cons_iff, ← ih hcomponents, ← hship]
      split at hout
      next =>
        obtain rfl := Except.pure_eq_ok_iff.mp hout
        rw [List.exists_mem_cons_iff]
        apply or_congr_left
        constructor
        · intro hhead
          exact ⟨hall, hhead.2, hhead.1⟩
        · intro hhead
          exact ⟨hhead.2.2, hhead.2.1⟩
      next hempty =>
        -- A component that is left out has no part at all.
        obtain rfl := Except.pure_eq_ok_iff.mp hout
        have hnil : ship = [] := by
          cases ship with
          | nil => rfl
          | cons s ship => simp at hempty
        simp [hnil]
    next hall =>
      rw [ih h, List.exists_mem_cons_iff]
      exact (or_iff_right fun hhead => hall hhead.1).symm

/-- The plan without an allowlist ships something for a component with some property iff a desired
component with that property has a part that its active bank does not hold. -/
theorem exists_shipping_iff {hub : Hub} {target : ChannelTarget} {observed desired : Tree}
    {plan : ApplyPlan} (hdesired : hub.desired target = .ok desired)
    (hplan : applyPlan (.ok observed) hub target none = .ok plan) (P : String → Prop) :
    (∃ c ∈ plan.components, c.ship ≠ [] ∧ P c.entity) ↔
      ∃ path des, desired.get? path = some des ∧ P path ∧
        ∃ part ∈ des.parts,
          desiredChange ((observed.get? path).getD {}).parts part ≠ none := by
  simp only [applyPlan, hdesired, Except.ok_bind, Except.bind_eq_ok_iff,
    Except.pure_eq_ok_iff] at hplan
  obtain ⟨components, hcomponents, rfl⟩ := hplan
  rw [exists_mem_planComponents_iff hcomponents]
  -- The planned parts with a path are those of the component there.
  have hparts : ∀ path des, desired.get? path = some des →
      ((∃ p ∈ (flashPlan observed desired).parts, p.entity = path ∧ p.plan = .ship) ↔
        ∃ part ∈ des.parts,
          desiredChange ((observed.get? path).getD {}).parts part ≠ none) := by
    intro path des hdes
    have hfilter := filter_flashPlan observed desired path
    rw [hdes, Option.toList_some, List.flatMap_singleton] at hfilter
    calc (∃ p ∈ (flashPlan observed desired).parts, p.entity = path ∧ p.plan = .ship)
        ↔ ∃ p ∈ (flashPlan observed desired).parts.filter (fun p => p.entity = path),
            p.plan = .ship := by simp [and_assoc]
      _ ↔ _ := by simp [hfilter, planParts, partPlan_eq_ship_iff]
  constructor
  · rintro ⟨⟨path, des⟩, hmem, -, hP, hship⟩
    have hdes := Tree.mem_toList.mp hmem
    exact ⟨path, des, hdes, hP, (hparts path des hdes).mp hship⟩
  · rintro ⟨path, des, hdes, hP, hship⟩
    exact ⟨(path, des), Tree.mem_toList.mpr hdes, rfl, hP, (hparts path des hdes).mpr hship⟩

end Orchestrator
