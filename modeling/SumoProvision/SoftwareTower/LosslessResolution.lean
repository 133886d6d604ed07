import Mathlib.Data.List.Perm.Basic
import SumoProvision.SoftwareTower.Immutability
import SumoProvision.SoftwareTower.TreeHash

/-!
# What the resolution of a release keeps

`resolve_members_to_tree` reads the members of a vehicle release and their parts in whatever order
the database returns them, and puts each member into a map under the entity path of its component
release. Two members with one path share a place in the map: the one that is read last stays.

`resolvesLosslessly_iff` says when that happens. The tree has one entity for each member, and one
tree hash for every order of the rows, iff no two members of the release have the same path.
`resolution_lossless_iff` carries this through every sequence of requests: nothing refuses a vehicle
release whose members share a path, and no release has such members if every request that cuts one
names component releases of distinct paths.
-/

namespace SoftwareTower

open Wire Canonical

variable {Value : Type}

/-! ## Definitions -/

/-- The row that a part of an entity comes from. -/
def storedPart (releaseId : ℤ) (p : Part) : ComponentReleasePart :=
  partRow releaseId ⟨p.id, p.kind, p.content⟩

/-- The entity stands for a member: it has the flag of the member, and the columns and the parts of
its component release. -/
structure StandsFor (db : Db Value) (m : VehicleReleaseMember) (row : ComponentRelease)
    (e : Entity) : Prop where
  kind : e.kind = row.entityKind
  version : e.version = some row.version
  disabled : e.disabled = m.disabled
  parts : (e.parts.map (storedPart m.componentReleaseId)).Perm (db.partsOf m.componentReleaseId)

/-- The tree of a vehicle release has exactly one entity for each member. -/
def Lossless (order : RowOrder) (x : Server Value) (v : ℤ) : Prop :=
  ∃ tree, resolvedTree order x v = .ok tree ∧
    tree.toList.length = (x.committed.releases.membersOf v).length ∧
    ∀ m ∈ x.committed.releases.membersOf v, ∃ row e,
      x.committed.releases.componentRelease m.componentReleaseId = some row ∧
      tree.get? row.entityPath = some e ∧ StandsFor x.committed.releases m row e

/-- In whatever order the rows are returned, the tree of a vehicle release has one entity for each
member, and always the same hash. -/
def ResolvesLosslessly (sha : Sha256) (x : Server Value) (v : ℤ) : Prop :=
  (∀ order, Lossless order x v) ∧
    ∀ order order' tree tree', resolvedTree order x v = .ok tree →
      resolvedTree order' x v = .ok tree' → treeHash sha tree = treeHash sha tree'

/-- The entity path of a member. -/
def Db.memberPath (db : Db Value) (m : VehicleReleaseMember) : Option String :=
  (db.componentRelease m.componentReleaseId).map (·.entityPath)

/-- No two members of a vehicle release have the same entity path. -/
def DistinctPaths (db : Db Value) (v : ℤ) : Prop :=
  ∀ m ∈ db.membersOf v, ∀ m' ∈ db.membersOf v, db.memberPath m = db.memberPath m' → m = m'

/-- The component releases that a vehicle request names have distinct entity paths. -/
def NamesDistinctPaths (db : Db Value) (req : NewVehicleRelease Value) : Prop :=
  ∀ r ∈ db.componentReleases.rows, ∀ r' ∈ db.componentReleases.rows, r.id ∈ req.members →
    r'.id ∈ req.members → r.entityPath = r'.entityPath → r = r'

/-- A vehicle request that cuts a new release combines distinct entity paths. -/
def CombinesDistinctPaths (sha : Sha256) (x : Server Value) : ChangeStep Value → Prop
  | (.vehicle req, _) =>
    x.committed.releases.findVehicle req.tag
        (vehicleIdentity sha req.members req.disabledMembers) = none →
      NamesDistinctPaths x.committed.releases req
  | _ => True

/-! ## The entry of a member -/

/-- What the loop inserts for a member. -/
def EntryOf (db : Db Value) (m : VehicleReleaseMember) (entry : String × Entity) : Prop :=
  ∃ row, db.componentRelease m.componentReleaseId = some row ∧ entry.1 = row.entityPath ∧
    StandsFor db m row entry.2

/-- Every stored content hash can be read back. -/
def PartsReadable (db : Db Value) : Prop :=
  ∀ p ∈ db.parts.rows, ∃ content : ContentHash, p.contentHash = content.toPrefixed

section Entries

variable {db : Db Value}

theorem storedPart_injective (releaseId : ℤ) : Function.Injective (storedPart releaseId) := by
  rintro ⟨kind, id, content⟩ ⟨kind', id', content'⟩ h
  simpa [storedPart, partRow, and_comm, and_left_comm] using h

/-- The parts of a component release are read back in the order in which their rows come. -/
theorem mapM_parseStoredHash (hdb : PartsReadable db) (order : RowOrder) (v releaseId : ℤ)
    (row : ComponentRelease) :
    ∃ parts, (order.parts (db.partsOf releaseId)).mapM (parseStoredHash v row) = .ok parts ∧
      parts.map (storedPart releaseId) = order.parts (db.partsOf releaseId) := by
  have hread : ∀ p ∈ order.parts (db.partsOf releaseId), ∃ part,
      parseStoredHash v row p = .ok part ∧ id p = storedPart releaseId part := by
    intro p hp
    have hrow : p ∈ db.partsOf releaseId := (order.perm_parts _).mem_iff.mp hp
    simp only [Db.partsOf, List.mem_filter, decide_eq_true_eq] at hrow
    obtain ⟨content, hcontent⟩ := hdb p hrow.1
    refine ⟨⟨p.partKind, p.partId, content⟩, ?_, ?_⟩
    · rw [parseStoredHash, hcontent, ContentHash.fromStr_toPrefixed]
    · rw [storedPart, partRow, ← hcontent, ← hrow.2]
      rfl
  obtain ⟨parts, hparts, hforall⟩ := Except.exists_mapM_eq_ok hread
  refine ⟨parts, hparts, ?_⟩
  rw [← hforall.map_eq_map, List.map_id]

/-- The entry of every member can be resolved, and stands for it. -/
theorem exists_resolveEntry (hdb : PartsReadable db) (order : RowOrder) (v : ℤ)
    {m : VehicleReleaseMember} (hm : m ∈ db.members.rows) :
    ∃ entry, resolveEntry order db v m = .ok entry ∧ EntryOf db m entry := by
  obtain ⟨row, hrow, hid⟩ := db.memberComponent m hm
  have hfind : db.componentRelease m.componentReleaseId = some row :=
    Db.componentRelease_eq_some_iff.mpr ⟨hrow, hid⟩
  obtain ⟨parts, hparts, hrows⟩ := mapM_parseStoredHash hdb order v m.componentReleaseId row
  refine ⟨(row.entityPath, memberEntity row m.disabled parts), ?_, row, hfind, rfl, rfl, rfl, rfl,
    ?_⟩
  · rw [resolveEntry, hfind, Option.elim_some, Except.ok_bind, hparts]
    rfl
  · change (parts.map _).Perm _
    rw [hrows]
    exact order.perm_parts _

theorem EntryOf.memberPath_eq {m : VehicleReleaseMember} {entry : String × Entity}
    (h : EntryOf db m entry) : db.memberPath m = some entry.1 := by
  obtain ⟨row, hrow, hpath, -⟩ := h
  rw [Db.memberPath, hrow, hpath]
  rfl

/-- The parts of a component release have distinct ids. -/
theorem nodup_partIds (db : Db Value) (releaseId : ℤ) :
    ((db.partsOf releaseId).map (·.partId)).Nodup := by
  rw [List.nodup_iff_pairwise_ne, List.pairwise_map, Db.partsOf, List.pairwise_filter]
  refine db.parts.unique.imp fun hclash hp hp' heq => hclash ⟨?_, heq⟩
  simp only [decide_eq_true_eq] at hp hp'
  exact hp.trans hp'.symm

/-- Two entries of one member have the same lines in the text that is hashed. -/
theorem EntryOf.entityLines_eq {m : VehicleReleaseMember} {entry entry' : String × Entity}
    (h : EntryOf db m entry) (h' : EntryOf db m entry') :
    entry.1 = entry'.1 ∧ entityLines entry = entityLines entry' := by
  obtain ⟨row, hrow, hpath, hentity⟩ := h
  obtain ⟨row', hrow', hpath', hentity'⟩ := h'
  obtain rfl : row = row' := Option.some.inj (hrow.symm.trans hrow')
  have hperm : entry.2.parts.Perm entry'.2.parts :=
    (List.map_perm_map_iff (storedPart_injective _)).mp (hentity.parts.trans hentity'.parts.symm)
  have hids : (entry.2.parts.map Part.id).Nodup := by
    have hmap := (hentity.parts.map (·.partId)).nodup_iff.mpr (nodup_partIds db _)
    simpa [Function.comp_def, storedPart, partRow] using hmap
  refine ⟨hpath.trans hpath'.symm, ?_⟩
  rw [entityLines, entityLines, partLines, partLines, sortOn_eq_of_perm hperm hids, hpath, hpath',
    hentity.disabled, hentity'.disabled]

end Entries

/-! ## The tree of a release -/

section Resolution

variable {db : Db Value}

/-- A release always resolves, to a tree collected from the entries of its members. -/
theorem exists_resolve (hdb : PartsReadable db) (order : RowOrder) (v : ℤ) :
    ∃ entries, resolve order db v = .ok (.ofList entries) ∧
      List.Forall₂ (EntryOf db) (order.members (db.membersOf v)) entries := by
  have hentry : ∀ m ∈ order.members (db.membersOf v), ∃ entry,
      resolveEntry order db v m = .ok entry ∧ EntryOf db m entry := by
    intro m hm
    exact exists_resolveEntry hdb order v
      (List.mem_of_mem_filter ((order.perm_members _).mem_iff.mp hm))
  obtain ⟨entries, hentries, hforall⟩ := Except.exists_mapM_eq_ok hentry
  exact ⟨entries, by rw [resolve, hentries]; rfl, hforall⟩

/-- The entries of a release have distinct paths iff its members do. -/
theorem nodup_paths_iff {v : ℤ} {members : List VehicleReleaseMember}
    {entries : List (String × Entity)} (hperm : members.Perm (db.membersOf v))
    (h : List.Forall₂ (EntryOf db) members entries) :
    (entries.map Prod.fst).Nodup ↔ DistinctPaths db v := by
  have hpaths : members.map db.memberPath = (entries.map Prod.fst).map some := by
    rw [List.map_map]
    exact (h.imp fun m entry hentry => hentry.memberPath_eq).map_eq_map
  have hnodup : (db.membersOf v).Nodup :=
    (db.members.nodup_rows fun _ => ⟨rfl, rfl⟩).filter _
  rw [← List.nodup_map_iff (Option.some_injective _), ← hpaths,
    (hperm.map db.memberPath).nodup_iff, List.nodup_map_iff_inj_on hnodup]
  rfl

/-- Of the entries of a release in two orders of the rows, each has a counterpart with the same path
and the same lines. -/
theorem mem_entityLines_of_perm {members members' : List VehicleReleaseMember}
    {entries entries' : List (String × Entity)} (hperm : members.Perm members')
    (h : List.Forall₂ (EntryOf db) members entries)
    (h' : List.Forall₂ (EntryOf db) members' entries') {line : String × List (List Char)}
    (hline : line ∈ entries.map fun entry => (entry.1, entityLines entry)) :
    line ∈ entries'.map fun entry => (entry.1, entityLines entry) := by
  obtain ⟨entry, hentry, rfl⟩ := List.mem_map.mp hline
  obtain ⟨m, hm, hof⟩ := h.exists_left hentry
  obtain ⟨entry', hentry', hof'⟩ := h'.flip.exists_left (hperm.mem_iff.mp hm)
  obtain ⟨hpath, hlines⟩ := hof.entityLines_eq hof'
  exact List.mem_map.mpr ⟨entry', hentry', by rw [hpath, hlines]⟩

/-- Without a path that occurs twice, the text that is hashed does not depend on the order of the
rows. -/
theorem treeText_eq_of_perm {members members' : List VehicleReleaseMember}
    {entries entries' : List (String × Entity)} (hperm : members.Perm members')
    (h : List.Forall₂ (EntryOf db) members entries)
    (h' : List.Forall₂ (EntryOf db) members' entries') (hnodup : (entries.map Prod.fst).Nodup)
    (hnodup' : (entries'.map Prod.fst).Nodup) :
    treeText (.ofList entries) = treeText (.ofList entries') := by
  have hmem : ∀ {l : List (String × Entity)}, (l.map Prod.fst).Nodup → ∀ line,
      line ∈ (Tree.ofList l).toList.map pathLines ↔ line ∈ l.map pathLines := by
    intro l hl line
    simp only [List.mem_map, Tree.mem_toList_ofList hl]
  refine treeText_eq_of_mem_pathLines fun line => ?_
  rw [hmem hnodup, hmem hnodup']
  exact ⟨mem_entityLines_of_perm hperm h h', mem_entityLines_of_perm hperm.symm h' h⟩

end Resolution

section Server

variable {x : Server Value} {v : ℤ}

/-- What the handler resolves a release to. -/
theorem exists_resolvedTree (hx : PartsReadable x.committed.releases) (order : RowOrder) (v : ℤ) :
    ∃ entries, resolvedTree order x v = .ok (.ofList entries) ∧
      List.Forall₂ (EntryOf x.committed.releases)
        (order.members (x.committed.releases.membersOf v)) entries := by
  obtain ⟨entries, hresolve, hforall⟩ := exists_resolve hx order v
  exact ⟨entries, by rw [resolvedTree_eq, hresolve]; rfl, hforall⟩

theorem distinctPaths_of_lossless (hx : PartsReadable x.committed.releases) {order : RowOrder}
    (h : Lossless order x v) : DistinctPaths x.committed.releases v := by
  obtain ⟨entries, hentries, hforall⟩ := exists_resolvedTree hx order v
  obtain ⟨tree, htree, hlength, -⟩ := h
  obtain rfl : Tree.ofList entries = tree := Except.ok.inj (hentries.symm.trans htree)
  -- As many entities as members: no entry has taken the place of another.
  rw [← (order.perm_members _).length_eq, hforall.length_eq] at hlength
  exact (nodup_paths_iff (order.perm_members _) hforall).mp
    (Tree.length_toList_ofList_iff.mp hlength)

theorem lossless_of_distinctPaths (hx : PartsReadable x.committed.releases)
    (h : DistinctPaths x.committed.releases v) (order : RowOrder) : Lossless order x v := by
  obtain ⟨entries, hentries, hforall⟩ := exists_resolvedTree hx order v
  have hnodup := (nodup_paths_iff (order.perm_members _) hforall).mpr h
  refine ⟨.ofList entries, hentries, ?_, fun m hm => ?_⟩
  · rw [Tree.length_toList_ofList_iff.mpr hnodup, ← hforall.length_eq,
      (order.perm_members _).length_eq]
  · obtain ⟨⟨path, e⟩, hentry, row, hrow, hpath, hentity⟩ :=
      hforall.flip.exists_left ((order.perm_members _).mem_iff.mpr hm)
    obtain rfl : path = row.entityPath := hpath
    have hmem := (Tree.mem_toList_ofList hnodup).mpr hentry
    exact ⟨row, e, hrow, Tree.mem_toList.mp hmem, hentity⟩

theorem treeHash_eq_of_distinctPaths (sha : Sha256) (hx : PartsReadable x.committed.releases)
    (h : DistinctPaths x.committed.releases v) {order order' : RowOrder} {tree tree' : Tree}
    (htree : resolvedTree order x v = .ok tree) (htree' : resolvedTree order' x v = .ok tree') :
    treeHash sha tree = treeHash sha tree' := by
  obtain ⟨entries, hentries, hforall⟩ := exists_resolvedTree hx order v
  obtain ⟨entries', hentries', hforall'⟩ := exists_resolvedTree hx order' v
  obtain rfl : Tree.ofList entries = tree := Except.ok.inj (hentries.symm.trans htree)
  obtain rfl : Tree.ofList entries' = tree' := Except.ok.inj (hentries'.symm.trans htree')
  have hperm := (order.perm_members (x.committed.releases.membersOf v)).trans
    (order'.perm_members _).symm
  rw [treeHash, treeHash, treeText_eq_of_perm hperm hforall hforall'
    ((nodup_paths_iff (order.perm_members _) hforall).mpr h)
    ((nodup_paths_iff (order'.perm_members _) hforall').mpr h)]

/-- The resolution of a release keeps all its members and does not depend on the order of the rows
iff the members have distinct paths. -/
theorem resolvesLosslessly_iff (sha : Sha256) (hx : PartsReadable x.committed.releases) (v : ℤ) :
    ResolvesLosslessly sha x v ↔ DistinctPaths x.committed.releases v := by
  constructor
  · intro h
    exact distinctPaths_of_lossless hx (h.1 .insertion)
  · intro h
    exact ⟨lossless_of_distinctPaths hx h, fun order order' tree tree' =>
      treeHash_eq_of_distinctPaths sha hx h⟩

end Server

/-! ## Sequences of requests -/

section Steps

variable (storable : Value → Bool) (sha : Sha256)

theorem partsReadable_foldl_next (clocks : Clocks) (steps : List (ChangeStep Value)) :
    PartsReadable (steps.foldl (Server.next storable sha) (.empty clocks)).committed.releases := by
  obtain ⟨new, hrows, hnew⟩ := (extends_foldl_next storable sha (.empty clocks) steps).parts
  intro p hp
  rw [hrows] at hp
  exact (hnew p (by simpa [Server.empty, Catalog.empty, Db.empty] using hp)).2

theorem Db.mem_membersOf {db : Db Value} {v : ℤ} {m : VehicleReleaseMember} :
    m ∈ db.membersOf v ↔ m ∈ db.members.rows ∧ m.vehicleReleaseId = v := by
  simp [Db.membersOf]

/-- A request that adds no members keeps the paths of those there are distinct. -/
theorem DistinctPaths.of_members_eq {db db' : Db Value} (h : ∀ v, DistinctPaths db v)
    (hextends : Extends db db') (hmembers : db'.members = db.members) :
    ∀ v, DistinctPaths db' v := by
  have hpath : ∀ m ∈ db.members.rows, db'.memberPath m = db.memberPath m := by
    intro m hm
    rw [Db.memberPath, hextends.componentRelease_eq (db.memberComponent m hm), Db.memberPath]
  intro v m hm m' hm' heq
  rw [Db.membersOf, hmembers] at hm hm'
  rw [hpath m (List.mem_of_mem_filter hm), hpath m' (List.mem_of_mem_filter hm')] at heq
  exact h v m hm m' hm' heq

/-- A vehicle request keeps the paths distinct, if those of a release that it cuts are. -/
theorem DistinctPaths.of_vehicleEffect {req : NewVehicleRelease Value} {db db' : Db Value}
    {r : Except (Stop AppError) ReleaseRef} (h : ∀ v, DistinctPaths db v)
    (heffect : VehicleEffect sha req db r db')
    (hreq : db.findVehicle req.tag (vehicleIdentity sha req.members req.disabledMembers) = none →
      NamesDistinctPaths db req) : ∀ v, DistinctPaths db' v := by
  have hcomponent : ∀ id, db'.componentRelease id = db.componentRelease id := by
    intro id
    rw [Db.componentRelease, heffect.componentReleases, Db.componentRelease]
  have hpath : ∀ m, db'.memberPath m = db.memberPath m := by
    intro m
    rw [Db.memberPath, hcomponent, Db.memberPath]
  -- The id of the new release is ahead of those that have members.
  have hold : ∀ m ∈ db.members.rows, m.vehicleReleaseId ≠ db.vehicleSeq := by
    intro m hm
    obtain ⟨r, hr, hid⟩ := db.memberVehicle m hm
    rw [← hid]
    exact (db.vehicleIds r hr).ne
  intro v m hm m' hm' heq
  rw [Db.mem_membersOf] at hm hm'
  rw [hpath, hpath] at heq
  rcases heffect.members m hm.1 with hmem | ⟨hnone, hseq, hnamed⟩ <;>
    rcases heffect.members m' hm'.1 with hmem' | ⟨-, hseq', hnamed'⟩
  · exact h v m (Db.mem_membersOf.mpr ⟨hmem, hm.2⟩) m' (Db.mem_membersOf.mpr ⟨hmem', hm'.2⟩) heq
  · exact absurd (hm.2.trans (hm'.2.symm.trans hseq')) (hold m hmem)
  · exact absurd (hm'.2.trans (hm.2.symm.trans hseq)) (hold m' hmem')
  · -- Both are new: their component releases have one path, so they are one.
    obtain ⟨row, hrow, hid⟩ := db'.memberComponent m hm.1
    obtain ⟨row', hrow', hid'⟩ := db'.memberComponent m' hm'.1
    rw [heffect.componentReleases] at hrow hrow'
    have hentity : row.entityPath = row'.entityPath := by
      rw [Db.memberPath, Db.memberPath, Db.componentRelease_eq_some_iff.mpr ⟨hrow, hid⟩,
        Db.componentRelease_eq_some_iff.mpr ⟨hrow', hid'⟩] at heq
      exact Option.some.inj heq
    have hsame : row = row' :=
      hreq hnone row hrow row' hrow' (hid ▸ hnamed) (hid' ▸ hnamed') hentity
    refine db'.members.eq_of_clash ?_ hm.1 hm'.1 ⟨hm.2.trans hm'.2.symm, ?_⟩
    · exact fun _ _ hclash => ⟨hclash.1.symm, hclash.2.symm⟩
    · rw [← hid, ← hid', hsame]

/-- Moving a channel does not touch the release tables. -/
theorem releases_next_setTarget (x : Server Value) (req : SetChannelTarget)
    (faults : List (Option (Fault SqlError))) :
    (x.next storable sha (.setTarget req, faults)).committed.releases = x.committed.releases := by
  rcases run_setChannelTarget .insertion sha req faults x with
    ⟨e, -, hkept⟩ | ⟨tree, c', -, hpointed, ⟨e, -, hkept⟩ | ⟨hc', -⟩⟩
  · exact congrArg Catalog.releases hkept
  · exact congrArg Catalog.releases hkept
  · exact (congrArg Catalog.releases hc').trans hpointed.releases

/-- The step lemma: a request that combines distinct paths keeps the paths of all releases
distinct. -/
theorem distinctPaths_next {x : Server Value} (h : ∀ v, DistinctPaths x.committed.releases v)
    {step : ChangeStep Value} (hstep : CombinesDistinctPaths sha x step) :
    ∀ v, DistinctPaths (x.next storable sha step).committed.releases v := by
  obtain ⟨change, faults⟩ := step
  cases change with
  | component req =>
    exact .of_members_eq h (extends_next storable sha x (.component req, faults))
      (run_createComponentRelease storable sha req faults x.committed.releases).1.2
  | vehicle req =>
    exact .of_vehicleEffect sha h
      (run_createVehicleRelease storable sha req faults x.committed.releases) hstep
  | setTarget req =>
    rw [releases_next_setTarget]
    exact h

/-- Resolution is lossless and independent of the row order exactly for the releases whose members
have distinct entity paths, after any sequence of requests. If every vehicle request that cuts a
release names component releases of distinct paths, these are all releases. -/
theorem resolution_lossless_iff (clocks : Clocks) (steps : List (ChangeStep Value)) :
    let x := steps.foldl (Server.next storable sha) (.empty clocks)
    (∀ v, ResolvesLosslessly sha x v ↔ DistinctPaths x.committed.releases v) ∧
      (Trace.AllMeet (Server.next storable sha) (CombinesDistinctPaths sha) (.empty clocks) steps →
        ∀ v, ResolvesLosslessly sha x v) := by
  intro x
  have hx : PartsReadable x.committed.releases := partsReadable_foldl_next storable sha clocks steps
  refine ⟨resolvesLosslessly_iff sha hx, fun hsteps v => ?_⟩
  rw [resolvesLosslessly_iff sha hx]
  refine hsteps.invariant (P := fun y => ∀ v, DistinctPaths y.committed.releases v) ?_ ?_ v
  · simp [DistinctPaths, Db.membersOf, Server.empty, Catalog.empty, Db.empty]
  · exact fun y step _ hy hstep => distinctPaths_next storable sha hy hstep

end Steps

/-- The request succeeds. -/
def Succeeds (storable : Value → Bool) (sha : Sha256) (x : Server Value) : ChangeStep Value → Prop
  | (.component req, faults) => ((createComponentRelease sha req).run (postgres storable) faults
      x.committed.releases).1.isOk = true
  | (.vehicle req, faults) => (x.respondVehicle storable sha req faults).isOk = true
  | (.setTarget req, faults) => (x.respondTarget sha req faults).isOk = true

instance (storable : Value → Bool) (sha : Sha256) (x : Server Value) :
    (step : ChangeStep Value) → Decidable (Succeeds storable sha x step)
  | (.component _, _) => inferInstanceAs (Decidable (_ = true))
  | (.vehicle _, _) => inferInstanceAs (Decidable (_ = true))
  | (.setTarget _, _) => inferInstanceAs (Decidable (_ = true))

/-- A version of the component `vm1`. -/
def vmVersion (version : String) (n : UInt8) : NewComponentRelease :=
  ⟨"vm1", "vm", version, [⟨"kernel", "file", ⟨.replicate 32 n⟩⟩]⟩

/-- The digests of the texts that identify the two versions and the members `1,2`. -/
def versionsSha : Sha256 :=
  .ofDigests
    [(componentText "vm" (vmVersion "1.0" 1).parts,
      ⟨#v[162, 141, 56, 101, 195, 94, 66, 116, 12, 74, 220, 115, 139, 59, 48, 154, 111, 152, 11,
        215, 131, 242, 97, 227, 89, 104, 139, 223, 142, 145, 139, 182]⟩),
      (componentText "vm" (vmVersion "1.1" 2).parts,
      ⟨#v[240, 46, 239, 30, 168, 11, 88, 80, 17, 9, 56, 226, 134, 12, 138, 40, 105, 160, 207, 4,
        119, 83, 223, 168, 247, 197, 254, 138, 112, 227, 52, 123]⟩),
      (vehicleText [1, 2] [],
      ⟨#v[23, 248, 175, 151, 173, 74, 127, 118, 57, 164, 201, 23, 29, 81, 133, 203, 175, 184, 84,
        98, 135, 122, 71, 70, 194, 27, 219, 10, 79, 148, 12, 160]⟩)]

/-- A vehicle release is cut with both versions of a component. -/
def sampleVersions : List (ChangeStep Unit) :=
  [(.component (vmVersion "1.0" 1), []), (.component (vmVersion "1.1" 2), []),
    (.vehicle ⟨"rig", "1", [1, 2], [], none⟩, [])]

/-- A release with both versions of a component is accepted, and one of them is lost. -/
theorem resolution_not_lossless :
    ¬ ∀ (storable : Unit → Bool) (sha : Sha256) (steps : List (ChangeStep Unit)),
      Trace.AllMeet (Server.next storable sha) (Succeeds storable sha) (.empty sampleClocks) steps →
        ∀ v, ResolvesLosslessly sha
          (steps.foldl (Server.next storable sha) (.empty sampleClocks)) v := by
  intro h
  let x := sampleVersions.foldl (Server.next (fun _ => true) versionsSha) (.empty sampleClocks)
  -- All three requests succeed, and leave a release with two members of one path.
  have hrun : Trace.AllMeet (Server.next (fun _ => true) versionsSha)
        (Succeeds (fun _ => true) versionsSha) (.empty sampleClocks) sampleVersions ∧
      x.committed.releases.membersOf 1 = [⟨1, 1, false⟩, ⟨1, 2, false⟩] ∧
      x.committed.releases.memberPath ⟨1, 1, false⟩ =
        x.committed.releases.memberPath ⟨1, 2, false⟩ := by decide +kernel
  obtain ⟨hsucceeds, hmembers, hpath⟩ := hrun
  have hdistinct : DistinctPaths x.committed.releases 1 :=
    (resolvesLosslessly_iff versionsSha (partsReadable_foldl_next _ versionsSha _ sampleVersions)
      1).mp (h _ _ _ hsucceeds 1)
  have heq := hdistinct ⟨1, 1, false⟩ (by rw [hmembers]; simp) ⟨1, 2, false⟩
    (by rw [hmembers]; simp) hpath
  cases heq

end SoftwareTower
