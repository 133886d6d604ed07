import SumoProvision.Wire.Assessment

/-!
# What a diff says

`wire::diff` against its purpose. A tree is, for an update, the set of its paths and the content of
each part (`Tree.contentAt`). With distinct part ids, a diff has exactly one entry for each part
whose content differs, with the change that takes the one content to the other
(`map_change_filter_diff`), and carrying the entries out on the observed tree gives the paths and
contents of the desired one (`diff_exact`).

The same comparison decides an assessment: `assessTree_exact` states it without reference to the
diff.
-/

namespace Wire

/-! ## Definitions -/

/-- True when observed already matches desired: nothing to flash. -/
def TreeDiff.isEmpty (d : TreeDiff) : Bool :=
  d.entitiesAdded.isEmpty && d.entitiesRemoved.isEmpty && d.parts.isEmpty

/-- The content that a list of parts has for an id. -/
def contentIn (parts : List Part) (id : String) : Option ContentHash :=
  (parts.find? fun p => p.id = id).map (·.content)

/-- The content of a part of the tree. -/
def Tree.contentAt (t : Tree) (path id : String) : Option ContentHash :=
  contentIn (t.partsAt path) id

/-- The two trees have the same paths, and the same content for every part. -/
def Tree.Agrees (t t' : Tree) : Prop :=
  (∀ path, t.containsKey path = t'.containsKey path) ∧
    ∀ path id, t.contentAt path id = t'.contentAt path id

/-- The change that takes the content of a part to another one. -/
def contentChange : Option ContentHash → Option ContentHash → Option Change
  | none, none => none
  | none, some _ => some .added
  | some _, none => some .removed
  | some observed, some desired => if observed = desired then none else some .changed

/-- Change the parts of the entity at a path, if there is one. -/
def Tree.modifyParts (t : Tree) (path : String) (f : List Part → List Part) : Tree :=
  match t.get? path with
  | none => t
  | some e => t.insert path { e with parts := f e.parts }

/-- Carry out one entry of a diff: drop the part, or set it to what is desired. -/
def applyChange (desired : Tree) (t : Tree) (c : PartChange) : Tree :=
  let others (parts : List Part) : List Part := parts.filter fun p => p.id ≠ c.part
  match c.change with
  | .removed => t.modifyParts c.entity others
  | .added | .changed =>
    t.modifyParts c.entity fun parts =>
      others parts ++ ((desired.partsAt c.entity).find? fun p => p.id = c.part).toList

/-- The tree with the removed entities dropped and the added ones created. -/
def TreeDiff.changePaths (d : TreeDiff) (observed : Tree) : Tree :=
  .ofList <| (observed.toList.filter fun e => !d.entitiesRemoved.contains e.1) ++
    d.entitiesAdded.map fun path => (path, ({} : Entity))

/-- Carry out a diff: first change the paths, then the parts. -/
def TreeDiff.apply (d : TreeDiff) (observed desired : Tree) : Tree :=
  d.parts.foldl (applyChange desired) (d.changePaths observed)

/-! ## Parts by id -/

section Parts

variable {observed desired parts : List Part} {id : String}

/-- With distinct ids, at most one part has an id. -/
theorem filter_id_eq (h : (parts.map (·.id)).Nodup) (id : String) :
    (parts.filter fun p => p.id = id) = (parts.find? fun p => p.id = id).toList := by
  induction parts with
  | nil => rfl
  | cons p parts ih =>
    rw [List.map_cons, List.nodup_cons] at h
    by_cases hp : p.id = id
    · subst hp
      have hrest : (parts.filter fun q => q.id = p.id) = [] :=
        List.filter_eq_nil_iff.mpr fun q hq => by
          simpa using fun heq : q.id = p.id => h.1 (heq ▸ List.mem_map_of_mem hq)
      simp [hrest]
    · simpa [hp] using ih h.2

/-- With distinct ids, the parts joined by id are looked up as in the list. -/
theorem partsById_getElem? (h : (parts.map (·.id)).Nodup) (id : String) :
    (partsById parts)[id]? = parts.find? fun p => p.id = id := by
  have hkeys : ((parts.map fun p => (p.id, p)).map Prod.fst).Nodup := by
    rwa [List.map_map]
  refine Option.ext fun p => ?_
  rw [partsById, ← OrderedMap.mem_toList, OrderedMap.mem_toList_ofList hkeys, ← Option.mem_toList,
    ← filter_id_eq h, List.mem_filter]
  simp only [List.mem_map, Prod.mk.injEq, decide_eq_true_eq]
  constructor
  · rintro ⟨q, hq, rfl, rfl⟩
    exact ⟨hq, rfl⟩
  · rintro ⟨hp, rfl⟩
    exact ⟨p, hp, rfl, rfl⟩

/-- The change of a desired part is the one of its content. -/
theorem desiredChange_eq (h : (observed.map (·.id)).Nodup) (dp : Part) :
    desiredChange observed dp = contentChange (contentIn observed dp.id) (some dp.content) := by
  rw [desiredChange, partsById_getElem? h, contentIn]
  cases observed.find? fun p => p.id = dp.id with
  | none => rfl
  | some op => by_cases heq : op.content = dp.content <;> simp [contentChange, heq]

/-- Of the entries of the desired parts, those of one id come from the part with the id. -/
theorem filter_filterMap_desiredChange (entity : String) (h : (desired.map (·.id)).Nodup)
    (id : String) :
    ((desired.filterMap fun dp => (desiredChange observed dp).map fun c =>
        (⟨entity, c, dp.id, dp.kind⟩ : PartChange)).filter fun c => c.part = id).map (·.change) =
      (desired.find? fun p => p.id = id).toList.filterMap (desiredChange observed) := by
  rw [← filter_id_eq h]
  clear h
  induction desired with
  | nil => rfl
  | cons dp desired ih =>
    cases hc : desiredChange observed dp <;> by_cases hid : dp.id = id <;> simp [hc, hid, ih]

/-- Of the entries of the observed parts, there is one for an id iff the id is not desired. -/
theorem filter_map_removed (entity : String) (isDesired : String → Bool)
    (h : (observed.map (·.id)).Nodup) (id : String) :
    (((observed.filter fun op => !isDesired op.id).map fun op =>
        (⟨entity, .removed, op.id, op.kind⟩ : PartChange)).filter fun c => c.part = id).map
          (·.change) =
      if isDesired id then []
      else (observed.find? fun p => p.id = id).toList.map fun _ => .removed := by
  rw [← filter_id_eq h]
  clear h
  induction observed with
  | nil => simp
  | cons op observed ih =>
    by_cases hid : op.id = id
    · cases hdes : isDesired id <;> simp [hdes, hid, ih]
    · cases hdes : isDesired op.id <;> simp [hdes, hid, ih]

/-- The changes of one part: at most one, the change of its content. -/
theorem map_change_filter_diffParts (entity : String) (hobserved : (observed.map (·.id)).Nodup)
    (hdesired : (desired.map (·.id)).Nodup) (id : String) :
    ((diffParts entity observed desired).filter fun c => c.part = id).map (·.change) =
      (contentChange (contentIn observed id) (contentIn desired id)).toList := by
  rw [diffParts, List.filter_append, List.map_append,
    filter_filterMap_desiredChange entity hdesired,
    filter_map_removed entity _ hobserved]
  cases hdes : desired.find? fun p => p.id = id with
  | none =>
    have hids : (desired.map (·.id)).contains id = false := by
      simpa using hdes
    rw [hids, contentIn, contentIn, hdes]
    cases observed.find? fun p => p.id = id <;> rfl
  | some dp =>
    have hid : dp.id = id := by simpa using List.find?_some hdes
    have hids : (desired.map (·.id)).contains id = true := by
      simpa using ⟨dp, List.mem_of_find?_eq_some hdes, hid⟩
    rw [hids, contentIn.eq_1 desired, hdes, Option.toList_some, Option.map_some,
      List.filterMap_cons, List.filterMap_nil, desiredChange_eq hobserved, hid]
    cases contentChange (contentIn observed id) (some dp.content) <;> simp

theorem contentChange_eq_none_iff {o d : Option ContentHash} :
    contentChange o d = none ↔ o = d := by
  cases o <;> cases d <;> simp [contentChange]

/-- There are no changes iff all contents agree. -/
theorem diffParts_eq_nil_iff (entity : String) (hobserved : (observed.map (·.id)).Nodup)
    (hdesired : (desired.map (·.id)).Nodup) :
    diffParts entity observed desired = [] ↔
      ∀ id, contentIn observed id = contentIn desired id := by
  simp only [← contentChange_eq_none_iff, ← Option.toList_eq_nil_iff,
    ← map_change_filter_diffParts entity hobserved hdesired, List.map_eq_nil_iff]
  constructor
  · intro h id
    rw [h, List.filter_nil]
  · intro h
    refine List.eq_nil_iff_forall_not_mem.mpr fun c hc => ?_
    simpa using List.filter_eq_nil_iff.mp (h c.part) c hc

end Parts

/-! ## The entries of a diff -/

section Trees

variable {observed desired t : Tree} {path id : String}

/-- A diff has one entry for each part whose content differs, the change of the content. -/
theorem map_change_filter_diff (hobserved : observed.DistinctIds) (hdesired : desired.DistinctIds)
    (path id : String) :
    ((diff observed desired).parts.filter fun c => c.entity = path ∧ c.part = id).map (·.change) =
      (contentChange (observed.contentAt path id) (desired.contentAt path id)).toList := by
  have hfilter : ((diff observed desired).parts.filter fun c => c.entity = path ∧ c.part = id) =
      ((diff observed desired).parts.filter fun c => c.entity = path).filter fun c =>
        c.part = id := by
    rw [List.filter_filter]
    refine List.filter_congr fun c _ => ?_
    rw [Bool.decide_and, Bool.and_comm]
  rw [hfilter, filter_diff]
  exact map_change_filter_diffParts path (hobserved.partsAt path) (hdesired.partsAt path) id

/-- A diff has no part entry iff all contents agree. -/
theorem parts_diff_eq_nil_iff (hobserved : observed.DistinctIds) (hdesired : desired.DistinctIds) :
    (diff observed desired).parts = [] ↔
      ∀ path id, observed.contentAt path id = desired.contentAt path id := by
  have hpath : ∀ path, ((diff observed desired).parts.filter fun c => c.entity = path) = [] ↔
      ∀ id, observed.contentAt path id = desired.contentAt path id := fun path => by
    rw [filter_diff]
    exact diffParts_eq_nil_iff path (hobserved.partsAt path) (hdesired.partsAt path)
  simp only [← hpath]
  constructor
  · intro h path
    rw [h, List.filter_nil]
  · intro h
    refine List.eq_nil_iff_forall_not_mem.mpr fun c hc => ?_
    simpa using List.filter_eq_nil_iff.mp (h c.entity) c hc

theorem mem_entitiesRemoved :
    path ∈ (diff observed desired).entitiesRemoved ↔
      (∃ e, observed.get? path = some e) ∧ desired.get? path = none := by
  simp [diff, Tree.containsKey_eq_false_iff]

theorem pairwise_entitiesAdded (observed desired : Tree) :
    (diff observed desired).entitiesAdded.Pairwise (· < ·) :=
  List.pairwise_map.mpr (desired.pairwise_lt_toList.filter _)

theorem pairwise_entitiesRemoved (observed desired : Tree) :
    (diff observed desired).entitiesRemoved.Pairwise (· < ·) :=
  List.pairwise_map.mpr (observed.pairwise_lt_toList.filter _)

/-! ## Carrying a diff out -/

theorem contentIn_append (parts parts' : List Part) (id : String) :
    contentIn (parts ++ parts') id = (contentIn parts id).or (contentIn parts' id) := by
  simp only [contentIn, List.find?_append]
  cases parts.find? fun p => p.id = id <;> rfl

theorem contentIn_filter_ne (parts : List Part) (id id' : String) :
    contentIn (parts.filter fun p => p.id ≠ id) id' =
      if id = id' then none else contentIn parts id' := by
  rw [contentIn, List.find?_filter, contentIn]
  split
  next h =>
    subst h
    simp
  next h =>
    congr 2
    funext p
    by_cases hp : p.id = id' <;> simp [hp, Ne.symm h]

/-- A part that is looked up by its id has its content under the id only. -/
theorem contentIn_toList_find? (parts : List Part) (id id' : String) :
    contentIn (parts.find? fun p => p.id = id).toList id' =
      if id = id' then contentIn parts id' else none := by
  rw [contentIn, contentIn]
  cases hfind : parts.find? fun p => p.id = id with
  | none =>
    split
    next h => simp [← h, hfind]
    next => rfl
  | some p =>
    have hp : p.id = id := by simpa using List.find?_some hfind
    split
    next h => simp [← h, hfind, hp]
    next h => simp [hp, h]

theorem containsKey_modifyParts (t : Tree) (path path' : String) (f : List Part → List Part) :
    (t.modifyParts path f).containsKey path' = t.containsKey path' := by
  rw [Tree.modifyParts]
  split
  next => rfl
  next e he =>
    rw [Bool.eq_iff_iff, Tree.containsKey_iff, Tree.containsKey_iff, Tree.get?_insert]
    split
    next h => simp [← h, he]
    next => rfl

theorem contentAt_modifyParts (h : t.containsKey path = true) (path' : String)
    (f : List Part → List Part) (id : String) :
    (t.modifyParts path' f).contentAt path id =
      if path' = path then contentIn (f (t.partsAt path)) id else t.contentAt path id := by
  obtain ⟨e, he⟩ := Tree.containsKey_iff.mp h
  rw [Tree.modifyParts]
  split
  next hnone =>
    have hne : path' ≠ path := by
      rintro rfl
      rw [he] at hnone
      cases hnone
    rw [if_neg hne]
  next e' he' =>
    rw [Tree.contentAt, Tree.partsAt, Tree.get?_insert]
    split
    next heq => simp [Tree.partsAt, ← heq, he']
    next => rfl

theorem containsKey_applyChange (desired t : Tree) (c : PartChange) (path : String) :
    (applyChange desired t c).containsKey path = t.containsKey path := by
  rw [applyChange]
  split <;> exact containsKey_modifyParts ..

/-- What an entry with a change makes of the content of its part. -/
def changedContent (desired : Option ContentHash) (c : Change) : Option ContentHash :=
  if c = .removed then none else desired

/-- An entry changes the content of its own part alone. -/
theorem contentAt_applyChange (h : t.containsKey path = true) (c : PartChange) :
    (applyChange desired t c).contentAt path id =
      if c.entity = path ∧ c.part = id then
        changedContent (desired.contentAt path id) c.change
      else t.contentAt path id := by
  have hset : (t.modifyParts c.entity fun parts => (parts.filter fun p => p.id ≠ c.part) ++
      ((desired.partsAt c.entity).find? fun p => p.id = c.part).toList).contentAt path id =
        if c.entity = path ∧ c.part = id then desired.contentAt path id
        else t.contentAt path id := by
    rw [contentAt_modifyParts h]
    by_cases hpath : c.entity = path
    · subst hpath
      rw [if_pos rfl, contentIn_append, contentIn_filter_ne, contentIn_toList_find?]
      by_cases hid : c.part = id <;> simp [hid, Tree.contentAt]
    · simp [hpath]
  cases hc : c.change with
  | removed =>
    rw [applyChange, hc]
    show (t.modifyParts c.entity _).contentAt path id = _
    rw [contentAt_modifyParts h, contentIn_filter_ne]
    by_cases hid : c.part = id <;> simp [hid, changedContent, Tree.contentAt]
  | added =>
    rw [applyChange, hc]
    exact hset
  | changed =>
    rw [applyChange, hc]
    exact hset

theorem containsKey_foldl_applyChange (desired t : Tree) (cs : List PartChange) (path : String) :
    (cs.foldl (applyChange desired) t).containsKey path = t.containsKey path := by
  induction cs generalizing t with
  | nil => rfl
  | cons c cs ih => rw [List.foldl_cons, ih, containsKey_applyChange]

/-- The entries of a part are carried out in their order, whatever stands between them. -/
theorem contentAt_foldl_applyChange (h : t.containsKey path = true) (cs : List PartChange) :
    (cs.foldl (applyChange desired) t).contentAt path id =
      ((cs.filter fun c => c.entity = path ∧ c.part = id).map (·.change)).foldl
        (fun _ => changedContent (desired.contentAt path id)) (t.contentAt path id) := by
  induction cs generalizing t with
  | nil => rfl
  | cons c cs ih =>
    rw [List.foldl_cons, ih (by rw [containsKey_applyChange, h]), contentAt_applyChange h]
    by_cases hc : c.entity = path ∧ c.part = id <;> simp [hc]

theorem foldl_contentChange (o d : Option ContentHash) :
    (contentChange o d).toList.foldl (fun _ => changedContent d) o = d := by
  cases o with
  | none => cases d <;> rfl
  | some c =>
    cases d with
    | none => rfl
    | some c' => by_cases h : c = c' <;> simp [contentChange, changedContent, h]

/-- Changing the paths gives the desired ones, with what is observed there. -/
theorem get?_changePaths_diff (observed desired : Tree) (path : String) :
    ((diff observed desired).changePaths observed).get? path =
      if desired.containsKey path then some ((observed.get? path).getD {}) else none := by
  let d := diff observed desired
  have hmem : ∀ e, (path, e) ∈ (observed.toList.filter fun e => !d.entitiesRemoved.contains e.1) ++
      (d.entitiesAdded.map fun path => (path, ({} : Entity))) ↔
        desired.containsKey path = true ∧ (observed.get? path).getD {} = e := by
    intro e
    simp only [d, List.mem_append, List.mem_filter, List.mem_map, Tree.mem_toList,
      mem_entitiesAdded, Bool.not_eq_true', ← Bool.not_eq_true, List.contains_iff_mem,
      mem_entitiesRemoved, Tree.containsKey_iff, Prod.mk.injEq]
    constructor
    · rintro (⟨hobserved, hkept⟩ | ⟨path, ⟨hdesired, hnone⟩, rfl, rfl⟩)
      · have hdesired : desired.get? path ≠ none := fun hnone => hkept ⟨⟨e, hobserved⟩, hnone⟩
        exact ⟨Option.ne_none_iff_exists'.mp hdesired, by rw [hobserved, Option.getD_some]⟩
      · exact ⟨hdesired, by rw [hnone, Option.getD_none]⟩
    · rintro ⟨⟨des, hdesired⟩, rfl⟩
      cases hobserved : observed.get? path with
      | some obs => exact .inl ⟨rfl, fun hremoved => by simp [hdesired] at hremoved⟩
      | none => exact .inr ⟨path, ⟨⟨des, hdesired⟩, hobserved⟩, rfl, rfl⟩
  have hnodup : (((observed.toList.filter fun e => !d.entitiesRemoved.contains e.1) ++
      (d.entitiesAdded.map fun path => (path, ({} : Entity)))).map Prod.fst).Nodup := by
    have hkeys : (d.entitiesAdded.map fun path => (path, ({} : Entity))).map Prod.fst =
        d.entitiesAdded := by
      rw [List.map_map]
      exact List.map_id _
    rw [List.map_append, hkeys, List.nodup_append]
    refine ⟨?_, ?_, ?_⟩
    · exact observed.nodup_keys_toList.sublist (List.filter_sublist.map _)
    · exact (pairwise_entitiesAdded observed desired).imp ne_of_lt
    · -- An added path is not observed.
      rintro kept hkept added hadded rfl
      obtain ⟨⟨path, obs⟩, hmem, rfl⟩ := List.mem_map.mp hkept
      have hobserved := Tree.mem_toList.mp (List.mem_filter.mp hmem).1
      have hnone := (mem_entitiesAdded.mp hadded).2
      simp [hobserved] at hnone
  refine Option.ext fun e => ?_
  rw [TreeDiff.changePaths, Tree.get?_ofList hnodup, hmem]
  cases desired.containsKey path <;> simp

theorem contentAt_eq_none (h : ¬ t.containsKey path = true) : t.contentAt path id = none := by
  rw [Bool.not_eq_true, Tree.containsKey_eq_false_iff] at h
  rw [Tree.contentAt, Tree.partsAt, h]
  rfl

/-- A diff that is carried out gives what is desired. -/
theorem agrees_apply_diff (hobserved : observed.DistinctIds) (hdesired : desired.DistinctIds) :
    ((diff observed desired).apply observed desired).Agrees desired := by
  have hkeys : ∀ path, ((diff observed desired).apply observed desired).containsKey path =
      desired.containsKey path := by
    intro path
    rw [TreeDiff.apply, containsKey_foldl_applyChange, Bool.eq_iff_iff, Tree.containsKey_iff,
      get?_changePaths_diff]
    cases desired.containsKey path <;> simp
  refine ⟨hkeys, fun path id => ?_⟩
  by_cases hpath : desired.containsKey path = true
  · have hstart := get?_changePaths_diff observed desired path
    rw [if_pos hpath] at hstart
    have hcontent : ((diff observed desired).changePaths observed).contentAt path id =
        observed.contentAt path id := by
      rw [Tree.contentAt, Tree.partsAt, hstart, Option.getD_some, Tree.contentAt, Tree.partsAt]
    rw [TreeDiff.apply, contentAt_foldl_applyChange (Tree.containsKey_iff.mpr ⟨_, hstart⟩),
      map_change_filter_diff hobserved hdesired, hcontent, foldl_contentChange]
  · rw [contentAt_eq_none hpath, contentAt_eq_none (by rwa [hkeys])]

theorem isEmpty_diff_iff (hobserved : observed.DistinctIds) (hdesired : desired.DistinctIds) :
    (diff observed desired).isEmpty = true ↔ observed.Agrees desired := by
  have hadded : (diff observed desired).entitiesAdded = [] ↔
      ∀ path, desired.containsKey path = true → observed.containsKey path = true := by
    simp [diff, List.filter_eq_nil_iff, Tree.containsKey_iff]
  have hremoved : (diff observed desired).entitiesRemoved = [] ↔
      ∀ path, observed.containsKey path = true → desired.containsKey path = true := by
    simp [diff, List.filter_eq_nil_iff, Tree.containsKey_iff]
  rw [TreeDiff.isEmpty, Bool.and_eq_true, Bool.and_eq_true, List.isEmpty_iff, List.isEmpty_iff,
    List.isEmpty_iff, hadded, hremoved, parts_diff_eq_nil_iff hobserved hdesired, Tree.Agrees]
  refine and_congr_left fun _ => ?_
  constructor
  · rintro ⟨hdes, hobs⟩ path
    exact Bool.eq_iff_iff.mpr ⟨hobs path, hdes path⟩
  · intro h
    exact ⟨fun path hpath => h path ▸ hpath, fun path hpath => h path ▸ hpath⟩

/-- A diff names the added and the removed entities in ascending order and has one entry for each
part whose content differs. Carried out on the observed tree it gives the desired paths and
contents, and it is empty iff these are the observed ones. -/
theorem diff_exact (observed desired : Tree) (hobserved : observed.DistinctIds)
    (hdesired : desired.DistinctIds) :
    let d := diff observed desired
    (d.entitiesAdded.Pairwise (· < ·) ∧ ∀ path, path ∈ d.entitiesAdded ↔
        desired.containsKey path = true ∧ observed.containsKey path = false) ∧
      (d.entitiesRemoved.Pairwise (· < ·) ∧ ∀ path, path ∈ d.entitiesRemoved ↔
        observed.containsKey path = true ∧ desired.containsKey path = false) ∧
      (∀ path id, (d.parts.filter fun c => c.entity = path ∧ c.part = id).map (·.change) =
        (contentChange (observed.contentAt path id) (desired.contentAt path id)).toList) ∧
      (d.apply observed desired).Agrees desired ∧
      (d.isEmpty = true ↔ observed.Agrees desired) := by
  intro d
  refine ⟨⟨pairwise_entitiesAdded observed desired, fun path => ?_⟩,
    ⟨pairwise_entitiesRemoved observed desired, fun path => ?_⟩,
    map_change_filter_diff hobserved hdesired, agrees_apply_diff hobserved hdesired,
    isEmpty_diff_iff hobserved hdesired⟩
  · rw [mem_entitiesAdded, Tree.containsKey_iff, Tree.containsKey_eq_false_iff]
  · rw [mem_entitiesRemoved, Tree.containsKey_iff, Tree.containsKey_eq_false_iff]

end Trees

/-- A changed kernel, a retired component and a new one. -/
theorem diff_exact_three_components :
    let kernel (n : UInt8) : Part := ⟨"file", "kernel", ⟨Vector.replicate 32 n⟩⟩
    let observed : Tree :=
      .ofList [("vm1", { parts := [kernel 1] }), ("vm2", { parts := [kernel 1] })]
    let desired : Tree :=
      .ofList [("vm1", { parts := [kernel 2] }), ("vm3", { parts := [kernel 2] })]
    (diff observed desired).parts.length = 3 ∧
      ((diff observed desired).apply observed desired).Agrees desired := by
  intro kernel observed desired
  have hobserved : observed.DistinctIds := Tree.distinctIds_ofList (by decide)
  have hdesired : desired.DistinctIds := Tree.distinctIds_ofList (by decide)
  exact ⟨by decide +kernel, (diff_exact observed desired hobserved hdesired).2.2.2.1⟩

/-! ## Assessments -/

section Assessment

variable {observed desired : Tree}

/-- What decides whether a component needs action: its membership, its contents, and the two
administrative states. -/
def OutOfDate (observed desired : Tree) (path : String) : Prop :=
  ∃ des, desired.get? path = some des ∧
    ((des.disabled = false ∧
        (observed.containsKey path = false ∨
          (∃ id, observed.contentAt path id ≠ desired.contentAt path id) ∨
          observed.adminDisabled path = some true)) ∨
      (des.disabled = true ∧ observed.adminDisabled path = some false))

theorem mem_components_iff_outOfDate (hobserved : observed.DistinctIds)
    (hdesired : desired.DistinctIds) {path : String} :
    path ∈ (assessTree observed desired).components ↔ OutOfDate observed desired path := by
  rw [mem_components_iff, OutOfDate]
  refine exists_congr fun des => and_congr_right fun hdes => ?_
  have hparts : diffParts path ((observed.get? path).getD {}).parts des.parts ≠ [] ↔
      ∃ id, observed.contentAt path id ≠ desired.contentAt path id := by
    have hnil := diffParts_eq_nil_iff path (hobserved.partsAt path) (hdesired path des hdes)
    rw [Tree.partsAt] at hnil
    rw [Ne, hnil, not_forall]
    simp only [Tree.contentAt, Tree.partsAt, hdes, Option.getD_some]
  rw [hparts, Tree.containsKey_eq_false_iff]
  cases des.disabled with
  | false => simp
  | true =>
    -- A disabled component with changed parts is listed by its administrative state anyway.
    simp
    exact fun hadmin _ _ => hadmin

/-- The outcome is read off the listed components and the entities that only the device has. -/
theorem outcome_assessTree (observed desired : Tree) :
    (assessTree observed desired).outcome =
      if (assessTree observed desired).components = [] then
        if (diff observed desired).entitiesRemoved = [] then .converged
        else .convergedIgnoringDeviceOnly
      else if ∃ path ∈ (assessTree observed desired).components,
          observed.containsKey path = true then .actionable
      else .deferred := by
  have hall : ((actionable observed desired).toList.all fun id => !observed.containsKey id) = true ↔
      ¬ ∃ path ∈ (actionable observed desired).toList, observed.containsKey path = true := by
    simp
  simp only [assessTree, List.isEmpty_iff, hall, ite_not]

/-- An assessment lists the components that need action, in ascending order, tells by them and by
the entities that only the device has how far the tree is from the desired one, and names these
entities. -/
theorem assessTree_exact (observed desired : Tree) (hobserved : observed.DistinctIds)
    (hdesired : desired.DistinctIds) :
    let a := assessTree observed desired
    let DeviceOnly (path : String) : Prop :=
      observed.containsKey path = true ∧ desired.containsKey path = false
    (a.components.Pairwise (· < ·) ∧
        ∀ path, path ∈ a.components ↔ OutOfDate observed desired path) ∧
      (a.outcome = .deferred ↔
        a.components ≠ [] ∧ ∀ path ∈ a.components, observed.containsKey path = false) ∧
      (a.outcome = .actionable ↔ ∃ path ∈ a.components, observed.containsKey path = true) ∧
      (a.outcome = .convergedIgnoringDeviceOnly ↔
        a.components = [] ∧ ∃ path, DeviceOnly path) ∧
      (a.outcome = .converged ↔ a.components = [] ∧ ¬ ∃ path, DeviceOnly path) ∧
      (a.ignoredDeviceOnlyEntities.Pairwise (· < ·) ∧
        ∀ path, path ∈ a.ignoredDeviceOnlyEntities ↔ DeviceOnly path) := by
  intro a DeviceOnly
  have hsorted : a.components.Pairwise (· < ·) :=
    Std.ExtTreeSet.ordered_toList.imp compare_lt_iff_lt.mp
  have hremoved : ∀ path, path ∈ (diff observed desired).entitiesRemoved ↔ DeviceOnly path := by
    intro path
    rw [mem_entitiesRemoved, ← Tree.containsKey_iff, ← Tree.containsKey_eq_false_iff]
  have hdeviceOnly : (∃ path, DeviceOnly path) ↔ (diff observed desired).entitiesRemoved ≠ [] := by
    simp only [← hremoved, ne_eq, List.eq_nil_iff_forall_not_mem, not_forall, not_not]
  have hnone : (∀ path ∈ a.components, observed.containsKey path = false) ↔
      ¬ ∃ path ∈ a.components, observed.containsKey path = true := by simp
  -- The outcome is decided by three questions, on each side of every equivalence.
  have houtcome := outcome_assessTree observed desired
  refine ⟨⟨hsorted, fun path => mem_components_iff_outOfDate hobserved hdesired⟩, ?_, ?_, ?_, ?_,
    pairwise_entitiesRemoved observed desired, hremoved⟩
  all_goals
    simp only [hdeviceOnly, hnone, a]
    rw [houtcome]
    by_cases hempty : (assessTree observed desired).components = []
    · by_cases hdevice : (diff observed desired).entitiesRemoved = [] <;> simp [hempty, hdevice]
    · by_cases hadvertised : ∃ path ∈ (assessTree observed desired).components,
        observed.containsKey path = true <;> simp [hempty, hadvertised]

end Assessment

/-- A component that is enabled in the release but reported disabled needs action, although its
content agrees. -/
theorem assessTree_exact_reported_disabled :
    let kernel : Part := ⟨"file", "kernel", ⟨Vector.replicate 32 7⟩⟩
    let observed : Tree := .ofList [("vm1", { parts := [kernel], adminDisabled := some true })]
    let desired : Tree := .ofList [("vm1", { parts := [kernel] })]
    (assessTree observed desired).outcome = .actionable := by
  intro kernel observed desired
  have hobserved : observed.DistinctIds := Tree.distinctIds_ofList (by decide)
  have hdesired : desired.DistinctIds := Tree.distinctIds_ofList (by decide)
  obtain ⟨⟨-, hcomponents⟩, -, hactionable, -⟩ :=
    assessTree_exact observed desired hobserved hdesired
  exact hactionable.mpr ⟨"vm1",
    (hcomponents "vm1").mpr ⟨{ parts := [kernel] }, rfl, .inl ⟨rfl, .inr (.inr rfl)⟩⟩, rfl⟩

end Wire
