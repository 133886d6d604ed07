import SumoProvision.Wire.Tree

/-!
# The tower-side skip

`partition_l1_components` splits a resolved target tree against the vehicle's self-report into the
components the tower builds, those it disables, and those it omits from the L1. The omission is
decided by `entity_agreed`, a join on plaintext digests that ignores part names.

The loop body is the classification `l1Class`; `partitionL1Components` pushes each component to the
list of its class, and the three lists are the components of each class in path order
(`included_eq`, `disabled_eq`, `skipped_eq`).
-/

namespace SoftwareTower

open Wire

/-- Whether the self-reported state already carries the resolved entity: the report has an entity at
`path`, and the digest of every resolved part is among the digests reported there. -/
def entityAgreed (reported : Tree) (path : String) (resolved : Entity) : Bool :=
  match reported.get? path with
  | none => false
  | some rep => resolved.parts.all fun p => rep.parts.any fun rp => rp.content == p.content

/-- The three sets of `partition_l1_components`. -/
inductive L1Class where
  | included
  | disabled
  | skipped
  deriving DecidableEq, Repr

/-- The set one component of the target goes to, if any: the body of the partition loop. -/
def l1Class (reported : Option Tree) (path : String) (entity : Entity) : Option L1Class :=
  let observedAdmin := reported.bind fun rep => rep.adminDisabled path
  if entity.disabled then
    -- Only an explicitly enabled component is disabled; one that reports no state is left alone.
    if observedAdmin == some false then some .disabled else some .skipped
  else if entity.parts.isEmpty then none
  else
    match reported with
    | some rep =>
      -- A component that the vehicle reports disabled is built again even if its content agrees:
      -- the L2 is what enables it.
      if observedAdmin != some true && entityAgreed rep path entity then some .skipped
      else some .included
    -- Without a report nothing is skipped.
    | none => some .included

/-- The result of `partition_l1_components`. -/
structure L1Partition where
  included : List (String × Entity) := []
  disabled : List (String × Entity) := []
  skipped : List String := []
  deriving DecidableEq

/-- One iteration of the partition loop. -/
def L1Partition.push (reported : Option Tree) (acc : L1Partition) (entry : String × Entity) :
    L1Partition :=
  match l1Class reported entry.1 entry.2 with
  | some .included => { acc with included := acc.included ++ [entry] }
  | some .disabled => { acc with disabled := acc.disabled ++ [entry] }
  | some .skipped => { acc with skipped := acc.skipped ++ [entry.1] }
  | none => acc

/-- Partition a resolved target tree for L1 assembly against the vehicle's self-report. -/
def partitionL1Components (tree : Tree) (reported : Option Tree) : L1Partition :=
  tree.toList.foldl (L1Partition.push reported) {}

/-! ## The three lists -/

/-- The partition loop appends to each list the entries of its class, in order. -/
private theorem foldl_push_eq (reported : Option Tree) (l : List (String × Entity))
    (acc : L1Partition) :
    l.foldl (L1Partition.push reported) acc =
      { included := acc.included ++ l.filter fun e => l1Class reported e.1 e.2 == some .included
        disabled := acc.disabled ++ l.filter fun e => l1Class reported e.1 e.2 == some .disabled
        skipped := acc.skipped ++
          (l.filter fun e => l1Class reported e.1 e.2 == some .skipped).map (·.1) } := by
  induction l generalizing acc with
  | nil => simp
  | cons e l ih =>
    rw [List.foldl_cons, ih]
    rcases hc : l1Class reported e.1 e.2 with _ | _ | _ | _ <;> simp [L1Partition.push, hc]

theorem included_eq (tree : Tree) (reported : Option Tree) :
    (partitionL1Components tree reported).included =
      tree.toList.filter fun e => l1Class reported e.1 e.2 == some .included := by
  simp [partitionL1Components, foldl_push_eq]

theorem disabled_eq (tree : Tree) (reported : Option Tree) :
    (partitionL1Components tree reported).disabled =
      tree.toList.filter fun e => l1Class reported e.1 e.2 == some .disabled := by
  simp [partitionL1Components, foldl_push_eq]

theorem skipped_eq (tree : Tree) (reported : Option Tree) :
    (partitionL1Components tree reported).skipped =
      (tree.toList.filter fun e => l1Class reported e.1 e.2 == some .skipped).map (·.1) := by
  simp [partitionL1Components, foldl_push_eq]

theorem mem_included {tree : Tree} {reported : Option Tree} {path : String} {e : Entity} :
    (path, e) ∈ (partitionL1Components tree reported).included ↔
      tree.get? path = some e ∧ l1Class reported path e = some .included := by
  simp [included_eq]

theorem mem_disabled {tree : Tree} {reported : Option Tree} {path : String} {e : Entity} :
    (path, e) ∈ (partitionL1Components tree reported).disabled ↔
      tree.get? path = some e ∧ l1Class reported path e = some .disabled := by
  simp [disabled_eq]

theorem mem_skipped {tree : Tree} {reported : Option Tree} {path : String} :
    path ∈ (partitionL1Components tree reported).skipped ↔
      ∃ e, tree.get? path = some e ∧ l1Class reported path e = some .skipped := by
  simp [skipped_eq]

/-! ## What decides the class -/

theorem entityAgreed_iff {reported : Tree} {path : String} {resolved rep : Entity}
    (hrep : reported.get? path = some rep) :
    entityAgreed reported path resolved = true ↔
      ∀ p ∈ resolved.parts, ∃ rp ∈ rep.parts, rp.content = p.content := by
  simp [entityAgreed, hrep]

private theorem l1Class_of_disabled {reported : Tree} {path : String} {e : Entity}
    (hd : e.disabled = true) : l1Class (some reported) path e =
      some (if reported.adminDisabled path = some false then .disabled else .skipped) := by
  by_cases ha : reported.adminDisabled path = some false <;> simp [l1Class, hd, ha]

private theorem l1Class_of_enabled {reported : Tree} {path : String} {e : Entity}
    (hd : e.disabled = false) : l1Class (some reported) path e =
      if e.parts = [] then none
      else if reported.adminDisabled path = some true ∨ entityAgreed reported path e = false then
        some .included
      else some .skipped := by
  by_cases ha : reported.adminDisabled path = some true <;>
    cases hg : entityAgreed reported path e <;> simp [l1Class, hd, ha, hg]

/-- A component is disabled iff the release disables it and the vehicle reports it enabled. -/
theorem l1Class_eq_disabled_iff {reported : Tree} {path : String} {e : Entity} :
    l1Class (some reported) path e = some .disabled ↔
      e.disabled = true ∧ reported.adminDisabled path = some false := by
  cases hd : e.disabled
  · rw [l1Class_of_enabled hd]
    split_ifs <;> simp
  · rw [l1Class_of_disabled hd]
    split_ifs with ha <;> simp [ha]

/-- A component is built iff the release enables it, it has parts, and the vehicle either reports it
administratively disabled or does not carry it. -/
theorem l1Class_eq_included_iff {reported : Tree} {path : String} {e : Entity} :
    l1Class (some reported) path e = some .included ↔
      e.disabled = false ∧ e.parts ≠ [] ∧
        (reported.adminDisabled path = some true ∨ entityAgreed reported path e = false) := by
  cases hd : e.disabled
  · rw [l1Class_of_enabled hd]
    split_ifs with hp hbuilt
    · simp [hp]
    · simp [hp, hbuilt]
    · simp [hbuilt]
  · rw [l1Class_of_disabled hd]
    split_ifs <;> simp

/-- A component is skipped iff the release disables it and the vehicle does not report it enabled,
or the release enables it, it has parts, the vehicle carries it and does not report it disabled. -/
theorem l1Class_eq_skipped_iff {reported : Tree} {path : String} {e : Entity} :
    l1Class (some reported) path e = some .skipped ↔
      (e.disabled = true ∧ reported.adminDisabled path ≠ some false) ∨
        (e.disabled = false ∧ e.parts ≠ [] ∧ reported.adminDisabled path ≠ some true ∧
          entityAgreed reported path e = true) := by
  cases hd : e.disabled
  · rw [l1Class_of_enabled hd]
    split_ifs with hp hbuilt
    · simp [hp]
    · simpa [hp, or_iff_not_imp_left] using hbuilt
    · simpa [hp] using hbuilt
  · rw [l1Class_of_disabled hd]
    split_ifs with ha <;> simp [ha]

end SoftwareTower
