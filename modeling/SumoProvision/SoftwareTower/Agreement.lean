import SumoProvision.SoftwareTower.Partition
import SumoProvision.Wire.Assessment

/-!
# The assessment and the tower's decision

The client previews a campaign with `wire::assess_tree`, which joins parts by id and content; the
tower decides what to ship with `partition_l1_components`, which joins by content alone. This module
compares the two on every pair of trees.

* `mem_components_of_emitted`: whatever the tower builds or disables, the assessment lists.
* `emitted_iff_of_listed`: conversely, a listed component that the device advertises is built or
  disabled unless it is enabled and either has no parts or is already carried under other names;
  those components the tower leaves alone.
-/

namespace SoftwareTower

open Wire

/-- The paths the tower emits an L2 for: the included and the disabled components. -/
def emittedPaths (tree : Tree) (reported : Option Tree) : List String :=
  ((partitionL1Components tree reported).included ++
    (partitionL1Components tree reported).disabled).map (·.1)

/-- An emitted component is one of the target, with the class that emits it. -/
theorem mem_emitted {tree : Tree} {reported : Option Tree} {c : String × Entity} :
    c ∈ (partitionL1Components tree reported).included ++
        (partitionL1Components tree reported).disabled ↔
      tree.get? c.1 = some c.2 ∧
        (l1Class reported c.1 c.2 = some .included ∨
          l1Class reported c.1 c.2 = some .disabled) := by
  obtain ⟨path, e⟩ := c
  rw [List.mem_append, mem_included, mem_disabled, ← and_or_left]

theorem mem_emittedPaths {tree : Tree} {reported : Option Tree} {path : String} :
    path ∈ emittedPaths tree reported ↔
      ∃ e, tree.get? path = some e ∧
        (l1Class reported path e = some .included ∨ l1Class reported path e = some .disabled) := by
  rw [emittedPaths, List.mem_map]
  constructor
  · rintro ⟨c, hc, rfl⟩
    exact ⟨c.2, mem_emitted.mp hc⟩
  · rintro ⟨e, he⟩
    exact ⟨(path, e), mem_emitted.mpr he, rfl⟩

/-- No path is emitted twice. -/
theorem nodup_emittedPaths (tree : Tree) (reported : Option Tree) :
    (emittedPaths tree reported).Nodup := by
  have hsub : ∀ f : String × Entity → Bool, ((tree.toList.filter f).map (·.1)).Nodup := fun f =>
    tree.nodup_keys_toList.sublist (List.filter_sublist.map _)
  rw [emittedPaths, List.map_append, List.nodup_append]
  -- Each list is a part of the tree's iteration, and an entity has only one class.
  refine ⟨included_eq tree reported ▸ hsub _, disabled_eq tree reported ▸ hsub _, ?_⟩
  rintro _ hincluded _ hdisabled rfl
  obtain ⟨⟨path, e⟩, he, rfl⟩ := List.mem_map.mp hincluded
  obtain ⟨⟨_, e'⟩, he', rfl⟩ := List.mem_map.mp hdisabled
  obtain ⟨hget, hclass⟩ := mem_included.mp he
  obtain ⟨hget', hclass'⟩ := mem_disabled.mp he'
  obtain rfl : e = e' := Option.some.inj (hget.symm.trans hget')
  rw [hclass] at hclass'
  cases hclass'

/-- An entity with parts that the report does not carry has a part change. -/
theorem diffParts_ne_nil_of_not_agreed {observed : Tree} {path : String} {obs des : Entity}
    (hobs : observed.get? path = some obs) (hagreed : entityAgreed observed path des = false) :
    diffParts path obs.parts des.parts ≠ [] := by
  have hnot : ¬ ∀ p ∈ des.parts, ∃ rp ∈ obs.parts, rp.content = p.content := by
    rw [← entityAgreed_iff hobs, hagreed]
    exact Bool.false_ne_true
  push Not at hnot
  obtain ⟨p, hp, hmissing⟩ := hnot
  exact diffParts_ne_nil_of_content_missing hp hmissing

/-- Every component the tower emits an L2 for is listed by the assessment. -/
theorem mem_components_of_emitted {observed desired : Tree} {path : String}
    (h : path ∈ emittedPaths desired (some observed)) :
    path ∈ (assessTree observed desired).components := by
  obtain ⟨des, hdes, hclass⟩ := mem_emittedPaths.mp h
  rw [mem_components_iff]
  refine ⟨des, hdes, ?_⟩
  rcases hclass with hinc | hdis
  · obtain ⟨henabled, -, hadmin | hagreed⟩ := l1Class_eq_included_iff.mp hinc
    · exact .inr (.inr (.inr ⟨henabled, hadmin⟩))
    · cases hobs : observed.get? path with
      -- Not carried: either the vehicle lacks the entity, or some content of it.
      | none => exact .inl ⟨henabled, rfl⟩
      | some obs =>
        exact .inr (.inl ⟨.inl henabled, diffParts_ne_nil_of_not_agreed hobs hagreed⟩)
  · exact .inr (.inr (.inl (l1Class_eq_disabled_iff.mp hdis)))

/-- The enabled components that the tower leaves alone although the device advertises them: those
without parts, and those whose every content the device carries while it does not report them
disabled. -/
def LeftAlone (obs des : Entity) : Prop :=
  des.disabled = false ∧
    (des.parts = [] ∨
      (obs.adminDisabled ≠ some true ∧
        ∀ p ∈ des.parts, ∃ rp ∈ obs.parts, rp.content = p.content))

/-- A listed component that the release disables is reported enabled. -/
theorem admin_enabled_of_listed_disabled {observed desired : Tree} {path : String} {des : Entity}
    (hlisted : path ∈ (assessTree observed desired).components)
    (hdes : desired.get? path = some des) (hdisabled : des.disabled = true) :
    observed.adminDisabled path = some false := by
  obtain ⟨des', hdes', hcause⟩ := mem_components_iff.mp hlisted
  obtain rfl : des' = des := Option.some.inj (hdes'.symm.trans hdes)
  simp only [hdisabled, Bool.true_eq_false, false_and, false_or, true_and, or_false] at hcause
  exact hcause.elim (·.1) id

/-- A component that the assessment lists and the device advertises is built or disabled exactly
when it is not one of those the tower leaves alone. The ones left alone are skipped if they have
parts, and in none of the three sets if they have not. -/
theorem emitted_iff_of_listed {observed desired : Tree} {path : String} {obs : Entity}
    (hlisted : path ∈ (assessTree observed desired).components)
    (hobs : observed.get? path = some obs) :
    ∃ des, desired.get? path = some des ∧
      (path ∈ emittedPaths desired (some observed) ↔ ¬ LeftAlone obs des) ∧
      (path ∈ (partitionL1Components desired (some observed)).skipped ↔
        LeftAlone obs des ∧ des.parts ≠ []) := by
  obtain ⟨des, hdes, -⟩ := mem_components_iff.mp hlisted
  have hadmin : observed.adminDisabled path = obs.adminDisabled := Tree.adminDisabled_of_get? hobs
  refine ⟨des, hdes, ?_⟩
  simp only [mem_emittedPaths, mem_skipped, hdes, Option.some.injEq, exists_eq_left',
    l1Class_eq_included_iff, l1Class_eq_disabled_iff, l1Class_eq_skipped_iff, LeftAlone,
    ← entityAgreed_iff hobs, ← hadmin]
  cases hdisabled : des.disabled with
  | true =>
    -- The assessment lists a disabled component only if it is reported enabled, and then the tower
    -- disables it; an enabled one is decided by the tower's own join.
    have henabled := admin_enabled_of_listed_disabled hlisted hdes hdisabled
    simp [henabled]
  | false =>
    by_cases hparts : des.parts = []
    · simp [hparts]
    · cases entityAgreed observed path des <;> simp [hparts]

/-- `vm1` is listed for its new kernel, and emitted for it. -/
theorem emitted_iff_of_listed_new_kernel :
    let observed := Tree.ofList
      [("vm1", { parts := [⟨"file", "kernel", ⟨Vector.replicate 32 7⟩⟩] })]
    let desired := Tree.ofList
      [("vm1", { kind := "vm", parts := [⟨"file", "kernel", ⟨Vector.replicate 32 8⟩⟩] })]
    "vm1" ∈ (assessTree observed desired).components ∧ ∃ obs des,
      observed.get? "vm1" = some obs ∧ desired.get? "vm1" = some des ∧
      ("vm1" ∈ emittedPaths desired (some observed) ↔ ¬ LeftAlone obs des) ∧
      ("vm1" ∈ (partitionL1Components desired (some observed)).skipped ↔
        LeftAlone obs des ∧ des.parts ≠ []) := by
  intro observed desired
  have hlisted : "vm1" ∈ (assessTree observed desired).components := by decide
  have hobs : observed.get? "vm1" =
      some { parts := [⟨"file", "kernel", ⟨Vector.replicate 32 7⟩⟩] } := by decide
  obtain ⟨des, hdes, hemitted, hskipped⟩ := emitted_iff_of_listed hlisted hobs
  exact ⟨hlisted, _, des, hobs, hdes, hemitted, hskipped⟩

/-- The vehicle reports `vm1`'s only file under its bank filename and retains a file of `vm2` that
the release no longer has. The assessment lists both advertised components, and the tower emits
neither: `vm1` is skipped, `vm2` is in none of the three sets. -/
theorem listed_advertised_not_emitted :
    let content : ContentHash := ⟨Vector.replicate 32 7⟩
    let observed := Tree.ofList
      [("vm1", { parts := [⟨"file", "boot.img", content⟩] }),
        ("vm2", { parts := [⟨"file", "rootfs.img", content⟩] })]
    let desired := Tree.ofList
      [("vm1", { kind := "vm", parts := [⟨"file", "kernel", content⟩] }), ("vm2", { kind := "vm" })]
    (assessTree observed desired).components = ["vm1", "vm2"] ∧
      observed.containsKey "vm1" = true ∧ observed.containsKey "vm2" = true ∧
      partitionL1Components desired (some observed) = { skipped := ["vm1"] } := by
  decide

end SoftwareTower
