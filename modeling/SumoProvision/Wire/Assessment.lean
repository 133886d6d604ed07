import SumoProvision.Wire.Tree

/-!
# Diff and convergence assessment

`wire::diff` compares an observed tree with a desired one: entities by path, parts by id and content
hash. `wire::assess_tree` turns the diff and the administrative states into the decision an operator
sees: which desired components need action.

The three insertion passes of `assessTree` are summed up by `mem_components_iff`; the later results
on the agreement with the tower's own decision use only that statement and
`exists_change_iff_of_desired`.
-/

namespace Wire

/-! ## Diff -/

/-- The kind of change a `diff` found for a part. -/
inductive Change where
  | added
  | removed
  | changed
  deriving DecidableEq, Repr

/-- One part-level change between two trees. -/
structure PartChange where
  entity : String
  change : Change
  part : String
  kind : String
  deriving DecidableEq

/-- What an update would touch to bring the observed tree up to the desired one. -/
structure TreeDiff where
  /-- Entities in desired but not observed. -/
  entitiesAdded : List String
  /-- Entities observed but not in desired. -/
  entitiesRemoved : List String
  /-- Part-level changes. -/
  parts : List PartChange
  deriving DecidableEq

/-- The observed parts of one entity joined by id (`diff_parts`'s `obs`): of several observed parts
with one id the last one counts. -/
def partsById (parts : List Part) : Std.ExtTreeMap String Part :=
  .ofList (parts.map fun p => (p.id, p))

/-- How a desired part differs from the observed ones, if it does. -/
def desiredChange (observed : List Part) (dp : Part) : Option Change :=
  match (partsById observed)[dp.id]? with
  | none => some .added
  | some op => if op.content ≠ dp.content then some .changed else none

/-- The part changes of one entity: the desired parts in order, then the observed parts whose id is
not desired. -/
def diffParts (entity : String) (observed desired : List Part) : List PartChange :=
  let desIds : List String := desired.map (·.id)
  let change (p : Part) (c : Change) : PartChange :=
    { entity, change := c, part := p.id, kind := p.kind }
  (desired.filterMap fun dp => (desiredChange observed dp).map (change dp))
    -- Every observed part counts here, not only the last one with its id.
    ++ (observed.filter fun op => !desIds.contains op.id).map (change · .removed)

/-- The changes that would bring `observed` up to `desired`. -/
def diff (observed desired : Tree) : TreeDiff where
  entitiesAdded := (desired.toList.filter fun e => !observed.containsKey e.1).map (·.1)
  entitiesRemoved := (observed.toList.filter fun e => !desired.containsKey e.1).map (·.1)
  parts :=
    -- An entity that is not observed at all is compared with no parts.
    (desired.toList.flatMap fun (path, des) =>
      diffParts path ((observed.get? path).getD {}).parts des.parts)
    ++ ((observed.toList.filter fun e => !desired.containsKey e.1).flatMap fun (path, obs) =>
      diffParts path obs.parts [])

/-! ## Assessment -/

/-- Typed convergence decision for one observed/desired snapshot. -/
inductive AssessmentOutcome where
  | converged
  | convergedIgnoringDeviceOnly
  | deferred
  | actionable
  deriving DecidableEq, Repr

structure ConvergenceAssessment where
  outcome : AssessmentOutcome
  components : List String
  ignoredDeviceOnlyEntities : List String
  deriving DecidableEq

def ConvergenceAssessment.isConverged (a : ConvergenceAssessment) : Bool :=
  a.outcome == .converged || a.outcome == .convergedIgnoringDeviceOnly

/-- An entity the observed tree lacks needs action unless the release disables it. -/
def addedNeedsAction (desired : Tree) (id : String) : Bool :=
  (desired.get? id).any (!·.disabled)

/-- A part change needs action when its entity is desired, and enabled or reported enabled. -/
def partNeedsAction (observed desired : Tree) (part : PartChange) : Bool :=
  match desired.get? part.entity with
  | none => false
  | some want => !want.disabled || observed.adminDisabled part.entity == some false

/-- A reported administrative state that contradicts the desired one needs action. -/
def adminNeedsAction (observed : Tree) (entry : String × Entity) : Bool :=
  let admin := observed.adminDisabled entry.1
  (entry.2.disabled && admin == some false) || (!entry.2.disabled && admin == some true)

/-- The set `assess_tree` fills in three passes. -/
def actionable (observed desired : Tree) : Std.ExtTreeSet String :=
  let delta := diff observed desired
  let s : Std.ExtTreeSet String := ∅
  let s := delta.entitiesAdded.foldl
    (fun s id => if addedNeedsAction desired id then s.insert id else s) s
  let s := delta.parts.foldl
    (fun s part => if partNeedsAction observed desired part then s.insert part.entity else s) s
  desired.toList.foldl
    (fun s entry => if adminNeedsAction observed entry then s.insert entry.1 else s) s

/-- Assess desired membership, content and administrative state together. -/
def assessTree (observed desired : Tree) : ConvergenceAssessment :=
  let delta := diff observed desired
  let components := (actionable observed desired).toList
  let outcome :=
    if components.isEmpty then
      if delta.entitiesRemoved.isEmpty then .converged else .convergedIgnoringDeviceOnly
    else if components.all fun id => !observed.containsKey id then .deferred
    else .actionable
  { outcome, components, ignoredDeviceOnlyEntities := delta.entitiesRemoved }

/-! ## What a diff contains -/

theorem mem_entitiesAdded {observed desired : Tree} {path : String} :
    path ∈ (diff observed desired).entitiesAdded ↔
      (∃ e, desired.get? path = some e) ∧ observed.get? path = none := by
  simp [diff, Tree.containsKey_eq_false_iff]

/-- Every change `diffParts` reports names the entity it was called for. -/
theorem entity_of_mem_diffParts {entity : String} {observed desired : List Part} {c : PartChange}
    (h : c ∈ diffParts entity observed desired) : c.entity = entity := by
  simp only [diffParts, List.mem_append, List.mem_filterMap, Option.map_eq_some_iff,
    List.mem_map] at h
  rcases h with ⟨dp, -, c', -, rfl⟩ | ⟨op, -, rfl⟩ <;> rfl

/-- A desired part is unchanged only if an observed part holds its content. -/
theorem exists_content_of_desiredChange_eq_none {observed : List Part} {dp : Part}
    (h : desiredChange observed dp = none) : ∃ op ∈ observed, op.content = dp.content := by
  unfold desiredChange at h
  split at h
  next => cases h
  next op hop =>
    -- The part that is found under the id is one of the observed parts, whichever of them it is.
    obtain ⟨op', hop', heq⟩ := List.mem_map.mp (OrderedMap.mem_of_getElem?_ofList hop)
    obtain rfl : op' = op := congrArg Prod.snd heq
    refine ⟨op', hop', ?_⟩
    by_contra hne
    simp [hne] at h

/-- The part changes that a diff has for a path are those of the two entities there, where a missing
entity counts as one without parts. -/
theorem filter_diff (observed desired : Tree) (path : String) :
    (diff observed desired).parts.filter (fun c => c.entity = path) =
      diffParts path (observed.partsAt path) (desired.partsAt path) := by
  have hdesired : ∀ e : String × Entity, ∀ a ∈ diffParts e.1 ((observed.get? e.1).getD {}).parts
      e.2.parts, a.entity = e.1 := fun _ _ => entity_of_mem_diffParts
  have hobserved : ∀ e : String × Entity, ∀ a ∈ diffParts e.1 e.2.parts [], a.entity = e.1 :=
    fun _ _ => entity_of_mem_diffParts
  rw [diff, List.filter_append, OrderedMap.filter_flatMap_of_key hdesired,
    OrderedMap.filter_flatMap_of_key hobserved, List.filter_comm, Tree.filter_toList,
    Tree.filter_toList, List.flatMap_map, Tree.partsAt, Tree.partsAt]
  cases hd : desired.get? path with
  | some des =>
    -- Of a desired path the second half of the diff has nothing.
    have hin : desired.containsKey path = true := Tree.containsKey_iff.mpr ⟨des, hd⟩
    cases hobs : observed.get? path <;> simp [hin, hobs]
  | none =>
    have hout : desired.containsKey path = false := Tree.containsKey_eq_false_iff.mpr hd
    cases observed.get? path with
    | some obs => simp [hout]
    | none => simp [diffParts]

/-- The part changes that carry a desired path are those of its own entity. -/
theorem exists_change_iff_of_desired {observed desired : Tree} {path : String} {des : Entity}
    (hdes : desired.get? path = some des) :
    (∃ c ∈ (diff observed desired).parts, c.entity = path) ↔
      diffParts path ((observed.get? path).getD {}).parts des.parts ≠ [] := by
  have hfilter := filter_diff observed desired path
  rw [Tree.partsAt, Tree.partsAt, hdes, Option.getD_some] at hfilter
  rw [← hfilter]
  simp

/-- A desired part that differs from the observed ones shows up in the diff. -/
theorem diffParts_ne_nil_of_desiredChange {entity : String} {observed desired : List Part}
    {p : Part} (hp : p ∈ desired) (hchange : desiredChange observed p ≠ none) :
    diffParts entity observed desired ≠ [] := by
  obtain ⟨c, hc⟩ := Option.ne_none_iff_exists'.mp hchange
  refine List.append_ne_nil_of_left_ne_nil (List.ne_nil_of_mem (a := ?_) ?_) _
  · exact { entity, change := c, part := p.id, kind := p.kind }
  · exact List.mem_filterMap.mpr ⟨p, hp, by rw [hc]; rfl⟩

/-- A desired part whose content no observed part holds shows up in the diff, as an addition or as
a change. -/
theorem diffParts_ne_nil_of_content_missing {entity : String} {observed desired : List Part}
    {p : Part} (hp : p ∈ desired) (hmissing : ∀ op ∈ observed, op.content ≠ p.content) :
    diffParts entity observed desired ≠ [] := by
  refine diffParts_ne_nil_of_desiredChange hp fun hnone => ?_
  obtain ⟨op, hop, heq⟩ := exists_content_of_desiredChange_eq_none hnone
  exact hmissing op hop heq

/-! ## What an assessment lists -/

/-- A desired component is listed iff it is new and enabled, or has a part change and is enabled or
reported enabled, or its reported administrative state contradicts the desired one. -/
theorem mem_components_iff {observed desired : Tree} {path : String} :
    path ∈ (assessTree observed desired).components ↔
      ∃ des, desired.get? path = some des ∧
        ((des.disabled = false ∧ observed.get? path = none) ∨
          ((des.disabled = false ∨ observed.adminDisabled path = some false) ∧
            diffParts path ((observed.get? path).getD {}).parts des.parts ≠ []) ∨
          (des.disabled = true ∧ observed.adminDisabled path = some false) ∨
          (des.disabled = false ∧ observed.adminDisabled path = some true)) := by
  have hset : path ∈ (assessTree observed desired).components ↔
      path ∈ actionable observed desired := Std.ExtTreeSet.mem_toList
  -- The three passes only add, so the set is the union of what each of them adds.
  rw [hset, actionable, OrderedSet.mem_foldl_insert, OrderedSet.mem_foldl_insert,
    OrderedSet.mem_foldl_insert]
  simp only [Std.ExtTreeSet.not_mem_empty, false_or]
  constructor
  · rintro ((⟨id, hid, hneeds, rfl⟩ | ⟨part, hpart, hneeds, rfl⟩) | ⟨⟨id, des⟩, hmem, hneeds, rfl⟩)
    · obtain ⟨⟨des, hdes⟩, hnone⟩ := mem_entitiesAdded.mp hid
      refine ⟨des, hdes, .inl ⟨?_, hnone⟩⟩
      simpa [addedNeedsAction, hdes] using hneeds
    · -- The second pass leaves changes of device-only entities out.
      unfold partNeedsAction at hneeds
      split at hneeds
      next => cases hneeds
      next des hdes =>
        refine ⟨des, hdes, .inr (.inl ⟨?_, ?_⟩)⟩
        · simpa using hneeds
        · exact (exists_change_iff_of_desired hdes).mp ⟨part, hpart, rfl⟩
    · refine ⟨des, Tree.mem_toList.mp hmem, .inr (.inr ?_)⟩
      simpa [adminNeedsAction] using hneeds
  · rintro ⟨des, hdes, ⟨henabled, hnone⟩ | ⟨hadmin, hne⟩ | hadmin⟩
    · refine .inl (.inl ⟨path, mem_entitiesAdded.mpr ⟨⟨des, hdes⟩, hnone⟩, ?_, rfl⟩)
      simp [addedNeedsAction, hdes, henabled]
    · obtain ⟨part, hpart, rfl⟩ := (exists_change_iff_of_desired hdes).mpr hne
      refine .inl (.inr ⟨part, hpart, ?_, rfl⟩)
      simpa [partNeedsAction, hdes] using hadmin
    · refine .inr ⟨(path, des), Tree.mem_toList.mpr hdes, ?_, rfl⟩
      simpa [adminNeedsAction] using hadmin

/-- A converged assessment is one that lists no component. -/
theorem isConverged_iff {observed desired : Tree} :
    (assessTree observed desired).isConverged = true ↔
      (assessTree observed desired).components = [] := by
  simp only [ConvergenceAssessment.isConverged, assessTree]
  rcases hlist : (actionable observed desired).toList with _ | ⟨id, rest⟩
  · cases (diff observed desired).entitiesRemoved.isEmpty <;> simp
  · cases (id :: rest).all fun id => !observed.containsKey id <;> simp

end Wire
