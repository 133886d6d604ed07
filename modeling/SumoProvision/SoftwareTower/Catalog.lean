import Mathlib.Data.List.MinMax
import SumoProvision.SoftwareTower.Releases

/-!
# The channel catalog

The tables `channel_targets` and `vehicle_release_targets` beside the release tables. A channel
points each `(device, architecture)` at a vehicle release, and is moved by an upsert;
`vehicle_release_targets` only grows, and records every pair that a release was pointed at.

The two tables are written in one transaction. A `Server` holds the committed catalog and the copy
that an open transaction works on: `BEGIN` makes the copy, `COMMIT` puts it in place, and everything
outside a transaction reads what is committed.
-/

namespace SoftwareTower

/-! ## Rows -/

/-- A row of `channel_targets`. -/
structure ChannelTarget where
  channel : String
  device : String
  architecture : String
  vehicleReleaseId : ℤ
  treeHash : String
  updatedAt : ℕ
  deriving DecidableEq

/-- The primary key of `channel_targets`. -/
def ChannelTarget.Clash (r r' : ChannelTarget) : Prop :=
  r.channel = r'.channel ∧ r.device = r'.device ∧ r.architecture = r'.architecture

instance : DecidableRel ChannelTarget.Clash := fun _ _ => inferInstanceAs (Decidable (_ ∧ _ ∧ _))

/-- The texts of the row are such as a `TEXT` column can hold. -/
def ChannelTarget.NulFree (r : ChannelTarget) : Prop :=
  SoftwareTower.NulFree r.channel ∧ SoftwareTower.NulFree r.device ∧
    SoftwareTower.NulFree r.architecture ∧ SoftwareTower.NulFree r.treeHash

instance (r : ChannelTarget) : Decidable r.NulFree := inferInstanceAs (Decidable (_ ∧ _ ∧ _ ∧ _))

/-- A row of `vehicle_release_targets`. -/
structure VehicleReleaseTarget where
  vehicleReleaseId : ℤ
  device : String
  architecture : String
  deriving DecidableEq

/-- The texts of the row are such as a `TEXT` column can hold. -/
def VehicleReleaseTarget.NulFree (r : VehicleReleaseTarget) : Prop :=
  SoftwareTower.NulFree r.device ∧ SoftwareTower.NulFree r.architecture

instance (r : VehicleReleaseTarget) : Decidable r.NulFree := inferInstanceAs (Decidable (_ ∧ _))

/-- The primary key of `vehicle_release_targets` consists of all its columns. -/
def VehicleReleaseTarget.Clash (r r' : VehicleReleaseTarget) : Prop :=
  r = r'

instance : DecidableRel VehicleReleaseTarget.Clash := fun _ _ => inferInstanceAs (Decidable (_ = _))

/-! ## The catalog -/

/-- The release tables and the two channel tables, with the clock behind `updated_at`. -/
structure Catalog (Value : Type) where
  releases : Db Value
  releaseTargets : Table VehicleReleaseTarget VehicleReleaseTarget.Clash
  channelTargets : Table ChannelTarget ChannelTarget.Clash
  clock : Clock
  targetTexts : ∀ t ∈ releaseTargets.rows, t.NulFree
  channelTexts : ∀ t ∈ channelTargets.rows, t.NulFree
  targetRelease : ∀ t ∈ releaseTargets.rows,
    ∃ r ∈ releases.vehicleReleases.rows, r.id = t.vehicleReleaseId
  channelRelease : ∀ t ∈ channelTargets.rows,
    ∃ r ∈ releases.vehicleReleases.rows, r.id = t.vehicleReleaseId

/-- The readings behind `created_at` of the releases and behind `updated_at` of the channels. -/
structure Clocks where
  created : Clock
  updated : Clock

/-- The clocks of the samples: each reading is one later than the one before. -/
def sampleClocks : Clocks :=
  ⟨id, id⟩

/-- The order in which the database returns the rows of the queries without `ORDER BY`. -/
structure RowOrder where
  members : List VehicleReleaseMember → List VehicleReleaseMember
  parts : List ComponentReleasePart → List ComponentReleasePart
  perm_members : ∀ rows, (members rows).Perm rows
  perm_parts : ∀ rows, (parts rows).Perm rows

/-- Rows are returned in the order in which they were inserted. -/
def RowOrder.insertion : RowOrder :=
  ⟨id, id, List.Perm.refl, List.Perm.refl⟩

namespace Db

variable {Value : Type}

/-- The members of a vehicle release. -/
def membersOf (db : Db Value) (vehicleReleaseId : ℤ) : List VehicleReleaseMember :=
  db.members.rows.filter fun m => m.vehicleReleaseId = vehicleReleaseId

/-- The component release with an id. -/
def componentRelease (db : Db Value) (id : ℤ) : Option ComponentRelease :=
  db.componentReleases.rows.find? fun r => r.id = id

/-- The parts of a component release. -/
def partsOf (db : Db Value) (releaseId : ℤ) : List ComponentReleasePart :=
  db.parts.rows.filter fun p => p.releaseId = releaseId

/-- The vehicle release with an id. -/
def vehicleRelease (db : Db Value) (id : ℤ) : Option (VehicleRelease Value) :=
  db.vehicleReleases.rows.find? fun r => r.id = id

theorem vehicleRelease_eq_some_iff {db : Db Value} {id : ℤ} {r : VehicleRelease Value} :
    db.vehicleRelease id = some r ↔ r ∈ db.vehicleReleases.rows ∧ r.id = id := by
  rw [vehicleRelease, Table.find?_eq_some_iff (by grind [VehicleRelease.Clash])
    (by grind [VehicleRelease.Clash]), decide_eq_true_iff]

theorem componentRelease_eq_some_iff {db : Db Value} {id : ℤ} {r : ComponentRelease} :
    db.componentRelease id = some r ↔ r ∈ db.componentReleases.rows ∧ r.id = id := by
  rw [componentRelease, Table.find?_eq_some_iff (by grind [ComponentRelease.Clash])
    (by grind [ComponentRelease.Clash]), decide_eq_true_iff]

end Db

namespace Catalog

variable {Value : Type}

/-- The empty, migrated catalog. -/
def empty (clocks : Clocks) : Catalog Value where
  releases := .empty clocks.created
  releaseTargets := .empty
  channelTargets := .empty
  clock := clocks.updated
  targetTexts := by simp
  channelTexts := by simp
  targetRelease := by simp
  channelRelease := by simp

/-- The catalog with other release tables, in which every vehicle release is still there. -/
def withReleases (c : Catalog Value) (db : Db Value)
    (h : ∀ r ∈ c.releases.vehicleReleases.rows, ∃ r' ∈ db.vehicleReleases.rows, r'.id = r.id) :
    Catalog Value :=
  { c with
    releases := db
    targetRelease := fun t ht => by
      obtain ⟨r, hr, hid⟩ := c.targetRelease t ht
      obtain ⟨r', hr', hid'⟩ := h r hr
      exact ⟨r', hr', hid'.trans hid⟩
    channelRelease := fun t ht => by
      obtain ⟨r, hr, hid⟩ := c.channelRelease t ht
      obtain ⟨r', hr', hid'⟩ := h r hr
      exact ⟨r', hr', hid'.trans hid⟩ }

/-- A pair that a release is pointed at. -/
def addReleaseTarget (c : Catalog Value) (row : VehicleReleaseTarget) (htexts : row.NulFree)
    (hfree : c.releaseTargets.Free row)
    (hrelease : ∃ r ∈ c.releases.vehicleReleases.rows, r.id = row.vehicleReleaseId) :
    Catalog Value :=
  { c with
    releaseTargets := c.releaseTargets.insert row hfree
    targetTexts := Table.forall_mem_insert c.targetTexts htexts
    targetRelease := Table.forall_mem_insert c.targetRelease hrelease }

/-- `INSERT INTO vehicle_release_targets … ON CONFLICT DO NOTHING`. -/
def insertReleaseTarget (c : Catalog Value) (row : VehicleReleaseTarget) :
    Except SqlError (Catalog Value) :=
  if htexts : row.NulFree then
    if hfree : c.releaseTargets.Free row then
      if hrelease : ∃ r ∈ c.releases.vehicleReleases.rows, r.id = row.vehicleReleaseId then
        .ok (c.addReleaseTarget row htexts hfree hrelease)
      else .error (.foreignKeyViolation "vehicle_release_targets_vehicle_release_id_fkey")
    else .ok c
  else .error .invalidInput

/-- A row in place of the one with its key. -/
def replaceTarget (row old : ChannelTarget) : ChannelTarget :=
  if old.Clash row then row else old

theorem clash_of_replaceTarget {row r r' : ChannelTarget}
    (h : (replaceTarget row r).Clash (replaceTarget row r')) : r.Clash r' := by
  -- Replacing a row does not change its key.
  have hkey : ∀ old : ChannelTarget, old.Clash (replaceTarget row old) := by
    intro old
    unfold replaceTarget
    split
    · assumption
    · exact ⟨rfl, rfl, rfl⟩
  have hr := hkey r
  have hr' := hkey r'
  grind [ChannelTarget.Clash]

/-- A row for a pair that the channel points somewhere already. -/
def updateChannelTarget (c : Catalog Value) (row : ChannelTarget) (htexts : row.NulFree)
    (hrelease : ∃ r ∈ c.releases.vehicleReleases.rows, r.id = row.vehicleReleaseId) :
    Catalog Value :=
  { c with
    channelTargets := c.channelTargets.modify (replaceTarget row) fun _ _ => clash_of_replaceTarget
    clock := c.clock.advance
    channelTexts := by
      intro t ht
      obtain ⟨old, hold, rfl⟩ := List.mem_map.mp ht
      unfold replaceTarget
      split
      · exact htexts
      · exact c.channelTexts old hold
    channelRelease := by
      intro t ht
      obtain ⟨old, hold, rfl⟩ := List.mem_map.mp ht
      unfold replaceTarget
      split
      · exact hrelease
      · exact c.channelRelease old hold }

/-- A row for a pair that is new to the channel. -/
def addChannelTarget (c : Catalog Value) (row : ChannelTarget) (htexts : row.NulFree)
    (hfree : c.channelTargets.Free row)
    (hrelease : ∃ r ∈ c.releases.vehicleReleases.rows, r.id = row.vehicleReleaseId) :
    Catalog Value :=
  { c with
    channelTargets := c.channelTargets.insert row hfree
    clock := c.clock.advance
    channelTexts := Table.forall_mem_insert c.channelTexts htexts
    channelRelease := Table.forall_mem_insert c.channelRelease hrelease }

/-- `INSERT INTO channel_targets … ON CONFLICT (channel, device, architecture) DO UPDATE`. The row
gets the time of the statement. -/
def upsertChannelTarget (c : Catalog Value) (target : ChannelTarget) :
    Except SqlError (Catalog Value) :=
  let row := { target with updatedAt := c.clock 0 }
  if htexts : row.NulFree then
    if hrelease : ∃ r ∈ c.releases.vehicleReleases.rows, r.id = row.vehicleReleaseId then
      if hfree : c.channelTargets.Free row then .ok (c.addChannelTarget row htexts hfree hrelease)
      else .ok (c.updateChannelTarget row htexts hrelease)
    else .error (.foreignKeyViolation "channel_targets_vehicle_release_id_fkey")
  else .error .invalidInput

/-- The row of a channel for a pair. -/
def findTarget (c : Catalog Value) (channel device architecture : String) : Option ChannelTarget :=
  c.channelTargets.rows.find? fun t =>
    t.channel = channel ∧ t.device = device ∧ t.architecture = architecture

theorem findTarget_eq_some_iff {c : Catalog Value} {channel device architecture : String}
    {t : ChannelTarget} : c.findTarget channel device architecture = some t ↔
      t ∈ c.channelTargets.rows ∧ t.channel = channel ∧ t.device = device ∧
        t.architecture = architecture := by
  rw [findTarget, Table.find?_eq_some_iff (by grind [ChannelTarget.Clash])
    (by grind [ChannelTarget.Clash]), decide_eq_true_iff]

/-- The rows of a channel. -/
def targetsOf (c : Catalog Value) (channel : String) : List ChannelTarget :=
  c.channelTargets.rows.filter fun t => t.channel = channel

/-- The rows of a channel that a selector admits, each with the release it points at. A field that
is not supplied admits every row. -/
def selectedTargets (c : Catalog Value) (channel : String) (device architecture : Option String) :
    List (ChannelTarget × VehicleRelease Value) :=
  ((c.targetsOf channel).filter fun t =>
    (∀ d ∈ device, t.device = d) ∧ ∀ a ∈ architecture, t.architecture = a).filterMap
      fun t => (c.releases.vehicleRelease t.vehicleReleaseId).map fun r => (t, r)

end Catalog

/-! ## The server -/

/-- The database server: what is committed, and the copy of an open transaction. -/
structure Server (Value : Type) where
  committed : Catalog Value
  pending : Option (Catalog Value)

namespace Server

variable {Value : Type}

/-- The server with the empty catalog. -/
def empty (clocks : Clocks) : Server Value :=
  ⟨.empty clocks, none⟩

/-- A read outside a transaction, with texts that it binds. -/
def read (x : Server Value) (texts : List String) {α : Type} (result : Except SqlError α) :
    Except SqlError α × Server Value :=
  if ∀ s ∈ texts, NulFree s then (result, x) else (.error .invalidInput, x)

/-- A write inside the open transaction. A failed one aborts it. -/
def write (x : Server Value) (change : Catalog Value → Except SqlError (Catalog Value)) :
    Except SqlError Unit × Server Value :=
  match x.pending with
  | none => (.error (.database "there is no transaction in progress"), x)
  | some c =>
    match change c with
    | .ok c' => (.ok (), { x with pending := some c' })
    | .error e => (.error e, { x with pending := none })

/-- `COMMIT`. Without a transaction, or after an error, nothing is committed. -/
def commit (x : Server Value) : Except SqlError Unit × Server Value :=
  (.ok (), ⟨x.pending.getD x.committed, none⟩)

end Server

/-! ## The statements -/

/-- The SQL statements of the channel handlers. -/
inductive CatalogSql where
  | selectMembers (vehicleReleaseId : ℤ)
  | selectComponent (id : ℤ)
  | selectParts (releaseId : ℤ)
  | vehicleExists (id : ℤ)
  | begin
  | insertReleaseTarget (row : VehicleReleaseTarget)
  | upsertChannelTarget (target : ChannelTarget)
  | commit
  | rollback
  | selectTarget (channel device architecture : String)
  | selectTargets (channel : String)
  | releaseTargetExists (row : VehicleReleaseTarget)
  | latestTarget (channel : String) (device architecture : Option String)

/-- What a statement returns. -/
abbrev CatalogSql.Reply (Value : Type) : CatalogSql → Type
  | .selectMembers .. => List VehicleReleaseMember
  | .selectComponent .. => ComponentRelease
  | .selectParts .. => List ComponentReleasePart
  | .vehicleExists .. => Bool
  | .selectTarget .. => Option ℤ
  | .selectTargets .. => List ℤ
  | .releaseTargetExists .. => Bool
  | .latestTarget .. => Option (ChannelTarget × VehicleRelease Value)
  | .begin => Unit
  | .insertReleaseTarget .. => Unit
  | .upsertChannelTarget .. => Unit
  | .commit => Unit
  | .rollback => Unit

/-- The statements with their replies and errors. -/
abbrev catalogSql (Value : Type) : Signature :=
  ⟨CatalogSql, CatalogSql.Reply Value, SqlError⟩

/-- The error of `fetch_one` on a query without rows. -/
def rowNotFound : SqlError :=
  .database "no rows returned by a query that expected to return at least one row"

/-- The database server, returning unordered rows in some order. -/
def catalogDb {Value : Type} (order : RowOrder) : Service (catalogSql Value) (Server Value) where
  exec
    | .selectMembers v, x => x.read [] (.ok (order.members (x.committed.releases.membersOf v)))
    | .selectComponent id, x =>
      x.read [] ((x.committed.releases.componentRelease id).elim (.error rowNotFound) .ok)
    | .selectParts id, x => x.read [] (.ok (order.parts (x.committed.releases.partsOf id)))
    | .vehicleExists id, x => x.read [] (.ok (x.committed.releases.vehicleRelease id).isSome)
    | .begin, x => (.ok (), { x with pending := some x.committed })
    | .insertReleaseTarget row, x => x.write fun c => c.insertReleaseTarget row
    | .upsertChannelTarget target, x => x.write fun c => c.upsertChannelTarget target
    | .commit, x => x.commit
    | .rollback, x => (.ok (), { x with pending := none })
    | .selectTarget channel device architecture, x =>
      x.read [channel, device, architecture]
        (.ok ((x.committed.findTarget channel device architecture).map (·.vehicleReleaseId)))
    | .selectTargets channel, x =>
      x.read [channel] (.ok ((x.committed.targetsOf channel).map (·.vehicleReleaseId)))
    | .releaseTargetExists row, x =>
      x.read [row.device, row.architecture]
        (.ok (decide (row ∈ x.committed.releaseTargets.rows)))
    | .latestTarget channel device architecture, x =>
      -- `ORDER BY updated_at DESC LIMIT 1`.
      x.read (channel :: (device.toList ++ architecture.toList))
        (.ok ((x.committed.selectedTargets channel device architecture).argmax
          fun t => t.1.updatedAt))

section Exec

variable {Value : Type} (order : RowOrder) (x : Server Value)

theorem exec_selectMembers (v : ℤ) : (catalogDb order).exec (.selectMembers v) x =
    x.read [] (.ok (order.members (x.committed.releases.membersOf v))) := rfl

theorem exec_selectComponent (id : ℤ) : (catalogDb order).exec (.selectComponent id) x =
    x.read [] ((x.committed.releases.componentRelease id).elim (.error rowNotFound) .ok) := rfl

theorem exec_selectParts (id : ℤ) : (catalogDb order).exec (.selectParts id) x =
    x.read [] (.ok (order.parts (x.committed.releases.partsOf id))) := rfl

theorem exec_vehicleExists (id : ℤ) : (catalogDb order).exec (.vehicleExists id) x =
    x.read [] (.ok (x.committed.releases.vehicleRelease id).isSome) := rfl

theorem exec_selectTarget (channel device architecture : String) :
    (catalogDb order).exec (.selectTarget channel device architecture) x =
      x.read [channel, device, architecture]
        (.ok ((x.committed.findTarget channel device architecture).map (·.vehicleReleaseId))) := rfl

theorem exec_selectTargets (channel : String) :
    (catalogDb order).exec (.selectTargets channel) x =
      x.read [channel] (.ok ((x.committed.targetsOf channel).map (·.vehicleReleaseId))) := rfl

theorem exec_releaseTargetExists (row : VehicleReleaseTarget) :
    (catalogDb order).exec (.releaseTargetExists row) x =
      x.read [row.device, row.architecture]
        (.ok (decide (row ∈ x.committed.releaseTargets.rows))) := rfl

theorem exec_latestTarget (channel : String) (device architecture : Option String) :
    (catalogDb order).exec (.latestTarget channel device architecture) x =
      x.read (channel :: (device.toList ++ architecture.toList))
        (.ok ((x.committed.selectedTargets channel device architecture).argmax
          fun t => t.1.updatedAt)) := rfl

theorem exec_insertReleaseTarget (row : VehicleReleaseTarget) :
    (catalogDb order).exec (.insertReleaseTarget row) x =
      x.write fun c => c.insertReleaseTarget row := rfl

theorem exec_upsertChannelTarget (target : ChannelTarget) :
    (catalogDb order).exec (.upsertChannelTarget target) x =
      x.write fun c => c.upsertChannelTarget target := rfl

end Exec

end SoftwareTower
