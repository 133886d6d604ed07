import SumoProvision.Wire.Assessment

/-!
# Flash plans

`wire::flash_plan` says for every desired part how its content gets onto the component's target
bank: it is shipped in the update, or the device copies it from the active bank of the same
component. Contents are joined by part id, as in `wire::diff`, so a part is shipped iff the diff
shows it as added or changed (`partPlan_eq_ship_iff`), and the shipped parts are these entries of
the diff, in order (`flashPlan_agrees_diff`). Administrative state plays no role.
-/

namespace Wire

/-- How one desired part is realised on its component's target bank. -/
inductive PartPlan where
  /-- New or changed content, shipped in the update. -/
  | ship
  /-- Content of this component's active bank, which the device copies. -/
  | reuse
  deriving DecidableEq, Repr

/-- One desired part and how its content is acquired. -/
structure PlannedPart where
  entity : String
  part : String
  kind : String
  content : ContentHash
  plan : PartPlan
  deriving DecidableEq

/-- A plan to realise a desired tree on a rig: every desired part with its way. -/
structure FlashPlan where
  parts : List PlannedPart
  deriving DecidableEq

/-- The parts that cross the wire. -/
def FlashPlan.ships (plan : FlashPlan) : List PlannedPart :=
  plan.parts.filter (·.plan = .ship)

/-- True when every desired part is already in its component's active bank: nothing to ship. -/
def FlashPlan.isNoop (plan : FlashPlan) : Bool :=
  plan.parts.all (·.plan = .reuse)

/-- The contents of an active bank by part id (`flash_plan`'s `active_at`): of several parts with
one id the last one counts. -/
def activeAt (parts : List Part) : Std.ExtTreeMap String ContentHash :=
  .ofList (parts.map fun p => (p.id, p.content))

/-- Whether a part is shipped or copied from the active bank. -/
def partPlan (active : List Part) (part : Part) : PartPlan :=
  if (activeAt active)[part.id]? = some part.content then .reuse else .ship

/-- The planned parts of one component, in the order of the release. -/
def planParts (entity : String) (active desired : List Part) : List PlannedPart :=
  desired.map fun part => ⟨entity, part.id, part.kind, part.content, partPlan active part⟩

/-- Plan how to realise `desired` on a rig whose active banks hold `observed`. -/
def flashPlan (observed desired : Tree) : FlashPlan where
  parts := desired.toList.flatMap fun (path, des) =>
    -- The only local source of a component is its own active bank.
    planParts path ((observed.get? path).getD {}).parts des.parts

/-! ## What is shipped -/

/-- A bank joined by id holds the contents of the parts joined by id. -/
theorem activeAt_getElem? (parts : List Part) (id : String) :
    (activeAt parts)[id]? = (partsById parts)[id]?.map (·.content) := by
  rw [activeAt, partsById, ← OrderedMap.getElem?_ofList_map, List.map_map]
  rfl

/-- A part is shipped iff the diff shows it as added or changed. -/
theorem partPlan_eq_ship_iff {active : List Part} {part : Part} :
    partPlan active part = .ship ↔ desiredChange active part ≠ none := by
  rw [partPlan, desiredChange, activeAt_getElem?]
  cases (partsById active)[part.id]? with
  | none => simp
  | some op => by_cases h : op.content = part.content <;> simp [h]

/-- The planned parts that carry a path are those of the component there. -/
theorem filter_flashPlan (observed desired : Tree) (path : String) :
    (flashPlan observed desired).parts.filter (fun p => p.entity = path) =
      (desired.get? path).toList.flatMap fun des =>
        planParts path ((observed.get? path).getD {}).parts des.parts := by
  have hkey : ∀ e : String × Entity, ∀ a ∈ planParts e.1 ((observed.get? e.1).getD {}).parts
      e.2.parts, a.entity = e.1 := by
    simp [planParts]
  rw [flashPlan, OrderedMap.filter_flatMap_of_key hkey, Tree.filter_toList, List.flatMap_map]

/-! ## Agreement with the diff -/

/-- The part that an entry of a diff is about has content to acquire. -/
def PartChange.Acquires (c : PartChange) : Prop :=
  c.change = .added ∨ c.change = .changed

instance (c : PartChange) : Decidable c.Acquires :=
  inferInstanceAs (Decidable (_ ∨ _))

theorem desiredChange_ne_removed (observed : List Part) (dp : Part) :
    desiredChange observed dp ≠ some .removed := by
  rw [desiredChange]
  split
  next => simp
  next op _ => by_cases h : op.content ≠ dp.content <;> simp [h]

/-- Of one component, the shipped parts are the added and changed ones. -/
theorem ships_planParts (entity : String) (active desired : List Part) :
    ((planParts entity active desired).filter (·.plan = .ship)).map
        (fun p => (p.entity, p.part, p.kind)) =
      ((diffParts entity active desired).filter (·.Acquires)).map
        fun c => (c.entity, c.part, c.kind) := by
  have hremoved : ∀ parts : List Part, (parts.map fun op =>
      (⟨entity, .removed, op.id, op.kind⟩ : PartChange)).filter (·.Acquires) = [] := by
    intro parts
    simp [List.filter_eq_nil_iff, PartChange.Acquires]
  rw [diffParts, List.filter_append, hremoved, List.append_nil, planParts]
  induction desired with
  | nil => rfl
  | cons dp desired ih =>
    rw [List.map_cons, List.filter_cons, List.filterMap_cons]
    cases hchange : desiredChange active dp with
    | none =>
      have hplan : partPlan active dp ≠ .ship := fun h => partPlan_eq_ship_iff.mp h hchange
      simpa [hplan] using ih
    | some c =>
      have hplan : partPlan active dp = .ship := partPlan_eq_ship_iff.mpr (by simp [hchange])
      have hacquires : PartChange.Acquires ⟨entity, c, dp.id, dp.kind⟩ := by
        cases c with
        | added => exact .inl rfl
        | removed => exact absurd hchange (desiredChange_ne_removed active dp)
        | changed => exact .inr rfl
      simp only [Option.map_some, List.filter_cons, hacquires, hplan, decide_true, if_true,
        List.map_cons, ih]

/-- The entries of an entity that is not desired are all removals. -/
theorem filter_diffParts_nil (entity : String) (observed : List Part) :
    (diffParts entity observed []).filter (·.Acquires) = [] := by
  simp [diffParts, List.filter_eq_nil_iff, PartChange.Acquires]

/-- A flash plan lists every desired part once, in the order of the release. What it ships are the
added and changed entries of the diff, in order, and it ships nothing iff there are none. -/
theorem flashPlan_agrees_diff (observed desired : Tree) :
    let plan := flashPlan observed desired
    let d := diff observed desired
    (plan.parts.map fun p => (p.entity, p.part, p.kind, p.content)) =
        (desired.toList.flatMap fun (path, des) =>
          des.parts.map fun p => (path, p.id, p.kind, p.content)) ∧
      (plan.ships.map fun p => (p.entity, p.part, p.kind)) =
        ((d.parts.filter (·.Acquires)).map fun c => (c.entity, c.part, c.kind)) ∧
      (plan.isNoop = true ↔ ¬ ∃ c ∈ d.parts, c.Acquires) := by
  intro plan d
  have hships : (plan.ships.map fun p => (p.entity, p.part, p.kind)) =
      ((d.parts.filter (·.Acquires)).map fun c => (c.entity, c.part, c.kind)) := by
    simp only [plan, d, FlashPlan.ships, flashPlan, diff, List.filter_append, List.filter_flatMap,
      filter_diffParts_nil, List.map_append, List.map_flatMap, ships_planParts]
    simp
  refine ⟨?_, hships, ?_⟩
  · simp [plan, flashPlan, planParts, List.map_flatMap, Function.comp_def]
  · have hnoop : plan.isNoop = true ↔ plan.ships = [] := by
      simp only [FlashPlan.isNoop, FlashPlan.ships, List.all_eq_true, decide_eq_true_eq,
        List.filter_eq_nil_iff]
      exact forall₂_congr fun p _ => by cases p.plan <;> simp
    have hnil : d.parts.filter (·.Acquires) = [] ↔ ¬ ∃ c ∈ d.parts, c.Acquires := by
      simp [List.filter_eq_nil_iff]
    rw [hnoop, ← hnil, ← List.map_eq_nil_iff, hships, List.map_eq_nil_iff]

end Wire
