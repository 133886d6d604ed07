import SumoProvision.Foundations.Prog
import SumoProvision.Foundations.Table
import SumoProvision.SoftwareTower.Identity

/-!
# The release database

The tables `component_releases`, `component_release_parts`, `vehicle_releases` and
`vehicle_release_members` as the migrations leave them, and the SQL statements that the create
handlers issue. Each statement runs outside a transaction and commits on its own.

A `Db` satisfies its constraints by construction: the tables carry their primary keys and unique
indexes, the record carries the foreign keys, that the serial sequences are ahead of the ids they
have given out, and that stored part texts are without NUL.
-/

namespace SoftwareTower

/-! ## Errors -/

/-- The database errors the statements can end with. -/
inductive SqlError where
  /-- A text parameter contains a NUL, or a document is not a valid `JSONB` value. -/
  | invalidInput
  | uniqueViolation (constraint : String)
  | foreignKeyViolation (constraint : String)
  /-- Anything else: a lost connection, a full disk, a pool timeout. -/
  | database (message : String)
  deriving DecidableEq

/-- What an internal error wraps. -/
inductive InternalError where
  | sql (e : SqlError)
  | io (message : String)
  | other (message : String)
  deriving DecidableEq

/-- The errors of the tower's API. -/
inductive AppError where
  | badHash
  | badRequest (message : String)
  | notFound
  | internal (e : InternalError)
  deriving DecidableEq

/-! ## Rows -/

/-- A row of `component_releases`. -/
structure ComponentRelease where
  id : ℤ
  entityPath : String
  entityKind : String
  version : String
  createdAt : ℕ
  identityHash : Option String
  deriving DecidableEq

/-- The primary key, and the partial unique index `component_releases_identity`. -/
def ComponentRelease.Clash (r r' : ComponentRelease) : Prop :=
  r.id = r'.id ∨
    (r.entityPath = r'.entityPath ∧ r.identityHash ≠ none ∧ r.identityHash = r'.identityHash)

instance : DecidableRel ComponentRelease.Clash := fun _ _ => inferInstanceAs (Decidable (_ ∨ _))

/-- A row of `component_release_parts`. -/
structure ComponentReleasePart where
  releaseId : ℤ
  partId : String
  partKind : String
  contentHash : String
  deriving DecidableEq

/-- The primary key of `component_release_parts`. -/
def ComponentReleasePart.Clash (r r' : ComponentReleasePart) : Prop :=
  r.releaseId = r'.releaseId ∧ r.partId = r'.partId

instance : DecidableRel ComponentReleasePart.Clash :=
  fun _ _ => inferInstanceAs (Decidable (_ ∧ _))

/-- A row of `vehicle_releases`. -/
structure VehicleRelease (Value : Type) where
  id : ℤ
  tag : String
  version : String
  createdAt : ℕ
  identityHash : Option String
  configSnapshot : Option Value
  deriving DecidableEq

/-- The primary key, and the partial unique index `vehicle_releases_identity`. -/
def VehicleRelease.Clash {Value : Type} (r r' : VehicleRelease Value) : Prop :=
  r.id = r'.id ∨ (r.tag = r'.tag ∧ r.identityHash ≠ none ∧ r.identityHash = r'.identityHash)

instance {Value : Type} : DecidableRel (@VehicleRelease.Clash Value) :=
  fun _ _ => inferInstanceAs (Decidable (_ ∨ _))

/-- A row of `vehicle_release_members`. -/
structure VehicleReleaseMember where
  vehicleReleaseId : ℤ
  componentReleaseId : ℤ
  disabled : Bool
  deriving DecidableEq

/-- The primary key of `vehicle_release_members`. -/
def VehicleReleaseMember.Clash (r r' : VehicleReleaseMember) : Prop :=
  r.vehicleReleaseId = r'.vehicleReleaseId ∧ r.componentReleaseId = r'.componentReleaseId

instance : DecidableRel VehicleReleaseMember.Clash :=
  fun _ _ => inferInstanceAs (Decidable (_ ∧ _))

/-- The columns `id, version, created_at` of a release. -/
structure ReleaseKey where
  id : ℤ
  version : String
  createdAt : ℕ
  deriving DecidableEq

/-- The selected columns of a component release. -/
def ComponentRelease.key (r : ComponentRelease) : ReleaseKey :=
  ⟨r.id, r.version, r.createdAt⟩

/-- The selected columns of a vehicle release. -/
def VehicleRelease.key {Value : Type} (r : VehicleRelease Value) : ReleaseKey :=
  ⟨r.id, r.version, r.createdAt⟩

/-! ## The database -/

/-- The readings of `now()` that are still to come. Nothing is said about their order. -/
abbrev Clock := ℕ → ℕ

/-- The readings after the next one. -/
def Clock.advance (clock : Clock) : Clock :=
  fun n => clock (n + 1)

theorem Clock.monotone_advance {clock : Clock} (h : Monotone clock) : Monotone clock.advance :=
  fun _ _ hle => h (Nat.succ_le_succ hle)

theorem Clock.strictMono_advance {clock : Clock} (h : StrictMono clock) :
    StrictMono clock.advance :=
  fun _ _ hlt => h (Nat.succ_lt_succ hlt)

/-- The release tables with the sequences behind their ids and the clock behind `now()`. -/
structure Db (Value : Type) where
  componentReleases : Table ComponentRelease ComponentRelease.Clash
  parts : Table ComponentReleasePart ComponentReleasePart.Clash
  vehicleReleases : Table (VehicleRelease Value) VehicleRelease.Clash
  members : Table VehicleReleaseMember VehicleReleaseMember.Clash
  componentSeq : ℤ
  vehicleSeq : ℤ
  clock : Clock
  componentIds : ∀ r ∈ componentReleases.rows, r.id < componentSeq
  vehicleIds : ∀ r ∈ vehicleReleases.rows, r.id < vehicleSeq
  partTexts : ∀ p ∈ parts.rows, NulFree p.partId ∧ NulFree p.partKind
  partRelease : ∀ p ∈ parts.rows, ∃ r ∈ componentReleases.rows, r.id = p.releaseId
  memberVehicle : ∀ m ∈ members.rows, ∃ r ∈ vehicleReleases.rows, r.id = m.vehicleReleaseId
  memberComponent : ∀ m ∈ members.rows, ∃ r ∈ componentReleases.rows, r.id = m.componentReleaseId

namespace Db

variable {Value : Type}

/-- The empty, migrated database. -/
def empty (clock : Clock) : Db Value where
  componentReleases := .empty
  parts := .empty
  vehicleReleases := .empty
  members := .empty
  componentSeq := 1
  vehicleSeq := 1
  clock := clock
  componentIds := by simp
  vehicleIds := by simp
  partTexts := by simp
  partRelease := by simp
  memberVehicle := by simp
  memberComponent := by simp

/-- The component release of an entity with some content. -/
def findComponent (db : Db Value) (entityPath identity : String) : Option ComponentRelease :=
  db.componentReleases.rows.find? fun r =>
    r.entityPath = entityPath ∧ r.identityHash = some identity

/-- The vehicle release of a tag with some content. -/
def findVehicle (db : Db Value) (tag identity : String) : Option (VehicleRelease Value) :=
  db.vehicleReleases.rows.find? fun r => r.tag = tag ∧ r.identityHash = some identity

/-- `SELECT id, version, created_at FROM component_releases`. -/
def selectComponentRelease (db : Db Value) (entityPath identity : String) :
    Except SqlError (Option ReleaseKey) × Db Value :=
  if NulFree entityPath ∧ NulFree identity then
    (.ok ((db.findComponent entityPath identity).map (·.key)), db)
  else (.error .invalidInput, db)

/-- The next component id is used up. -/
def advanceComponents (db : Db Value) : Db Value :=
  { db with
    componentSeq := db.componentSeq + 1
    clock := db.clock.advance
    componentIds := fun r hr => (db.componentIds r hr).trans (Int.lt_succ _) }

/-- The next component id is given to a new release. -/
def addComponentRelease (db : Db Value) (row : ComponentRelease) (hid : row.id = db.componentSeq)
    (hfree : db.componentReleases.Free row) : Db Value :=
  { db.advanceComponents with
    componentReleases := db.componentReleases.insert row hfree
    componentIds := Table.forall_mem_insert db.advanceComponents.componentIds
      (hid ▸ Int.lt_succ _)
    partRelease := fun p hp => Table.exists_mem_insert (db.partRelease p hp)
    memberComponent := fun m hm => Table.exists_mem_insert (db.memberComponent m hm) }

/-- `INSERT INTO component_releases … RETURNING id, version, created_at`. The sequence advances even
if the row violates the index. -/
def insertComponentRelease (db : Db Value) (entityPath entityKind version identity : String) :
    Except SqlError ReleaseKey × Db Value :=
  let row : ComponentRelease :=
    ⟨db.componentSeq, entityPath, entityKind, version, db.clock 0, some identity⟩
  if NulFree entityPath ∧ NulFree entityKind ∧ NulFree version ∧ NulFree identity then
    if hfree : db.componentReleases.Free row then
      (.ok row.key, db.addComponentRelease row rfl hfree)
    -- A sequence is not rolled back with the statement that used it.
    else (.error (.uniqueViolation "component_releases_identity"), db.advanceComponents)
  -- Parameters are refused before the statement runs, so no id is used up.
  else (.error .invalidInput, db)

/-- A part of a release that exists. -/
def addPart (db : Db Value) (row : ComponentReleasePart)
    (htexts : NulFree row.partId ∧ NulFree row.partKind) (hfree : db.parts.Free row)
    (hrelease : ∃ r ∈ db.componentReleases.rows, r.id = row.releaseId) : Db Value :=
  { db with
    parts := db.parts.insert row hfree
    partTexts := Table.forall_mem_insert db.partTexts htexts
    partRelease := Table.forall_mem_insert db.partRelease hrelease }

/-- `INSERT INTO component_release_parts`. -/
def insertPart (db : Db Value) (row : ComponentReleasePart) : Except SqlError Unit × Db Value :=
  if htexts : (NulFree row.partId ∧ NulFree row.partKind) ∧ NulFree row.contentHash then
    if hfree : db.parts.Free row then
      if hrelease : ∃ r ∈ db.componentReleases.rows, r.id = row.releaseId then
        (.ok (), db.addPart row htexts.1 hfree hrelease)
      else (.error (.foreignKeyViolation "component_release_parts_release_id_fkey"), db)
    else (.error (.uniqueViolation "component_release_parts_pkey"), db)
  else (.error .invalidInput, db)

/-- `SELECT id, version, created_at FROM vehicle_releases`. -/
def selectVehicleRelease (db : Db Value) (tag identity : String) :
    Except SqlError (Option ReleaseKey) × Db Value :=
  if NulFree tag ∧ NulFree identity then
    (.ok ((db.findVehicle tag identity).map (·.key)), db)
  else (.error .invalidInput, db)

/-- The row with a configuration snapshot, unless it has one: `COALESCE(config_snapshot, $2)`. -/
def coalesceSnapshot (id : ℤ) (snapshot : Option Value) (r : VehicleRelease Value) :
    VehicleRelease Value :=
  if r.id = id then { r with configSnapshot := r.configSnapshot.or snapshot } else r

@[simp] theorem id_coalesceSnapshot (id : ℤ) (snapshot : Option Value) (r : VehicleRelease Value) :
    (coalesceSnapshot id snapshot r).id = r.id := by
  unfold coalesceSnapshot
  split <;> rfl

@[simp] theorem tag_coalesceSnapshot (id : ℤ) (snapshot : Option Value) (r : VehicleRelease Value) :
    (coalesceSnapshot id snapshot r).tag = r.tag := by
  unfold coalesceSnapshot
  split <;> rfl

@[simp] theorem identityHash_coalesceSnapshot (id : ℤ) (snapshot : Option Value)
    (r : VehicleRelease Value) :
    (coalesceSnapshot id snapshot r).identityHash = r.identityHash := by
  unfold coalesceSnapshot
  split <;> rfl

/-- A release gets a configuration snapshot, unless it has one. -/
def fillSnapshot (db : Db Value) (id : ℤ) (snapshot : Option Value) : Db Value :=
  { db with
    vehicleReleases := db.vehicleReleases.modify (coalesceSnapshot id snapshot)
      fun r r' h => by simpa [VehicleRelease.Clash] using h
    vehicleIds := by
      intro r hr
      obtain ⟨old, hold, rfl⟩ := List.mem_map.mp hr
      simpa using db.vehicleIds old hold
    memberVehicle := by
      intro m hm
      obtain ⟨r, hr, hid⟩ := db.memberVehicle m hm
      exact ⟨_, List.mem_map_of_mem hr, by simpa using hid⟩ }

/-- `UPDATE vehicle_releases SET config_snapshot = COALESCE(config_snapshot, $2)`. -/
def updateConfigSnapshot (storable : Value → Bool) (db : Db Value) (id : ℤ)
    (snapshot : Option Value) : Except SqlError Unit × Db Value :=
  if snapshot.all storable then (.ok (), db.fillSnapshot id snapshot)
  else (.error .invalidInput, db)

/-- The next vehicle id is used up. -/
def advanceVehicles (db : Db Value) : Db Value :=
  { db with
    vehicleSeq := db.vehicleSeq + 1
    clock := db.clock.advance
    vehicleIds := fun r hr => (db.vehicleIds r hr).trans (Int.lt_succ _) }

/-- The next vehicle id is given to a new release. -/
def addVehicleRelease (db : Db Value) (row : VehicleRelease Value) (hid : row.id = db.vehicleSeq)
    (hfree : db.vehicleReleases.Free row) : Db Value :=
  { db.advanceVehicles with
    vehicleReleases := db.vehicleReleases.insert row hfree
    vehicleIds := Table.forall_mem_insert db.advanceVehicles.vehicleIds (hid ▸ Int.lt_succ _)
    memberVehicle := fun m hm => Table.exists_mem_insert (db.memberVehicle m hm) }

/-- `INSERT INTO vehicle_releases … RETURNING id, version, created_at`. -/
def insertVehicleRelease (storable : Value → Bool) (db : Db Value) (tag version identity : String)
    (snapshot : Option Value) : Except SqlError ReleaseKey × Db Value :=
  let row : VehicleRelease Value :=
    ⟨db.vehicleSeq, tag, version, db.clock 0, some identity, snapshot⟩
  if NulFree tag ∧ NulFree version ∧ NulFree identity ∧ snapshot.all storable then
    if hfree : db.vehicleReleases.Free row then
      (.ok row.key, db.addVehicleRelease row rfl hfree)
    else (.error (.uniqueViolation "vehicle_releases_identity"), db.advanceVehicles)
  else (.error .invalidInput, db)

/-- A member of a release, both of which exist. -/
def addMember (db : Db Value) (row : VehicleReleaseMember) (hfree : db.members.Free row)
    (hvehicle : ∃ r ∈ db.vehicleReleases.rows, r.id = row.vehicleReleaseId)
    (hcomponent : ∃ r ∈ db.componentReleases.rows, r.id = row.componentReleaseId) : Db Value :=
  { db with
    members := db.members.insert row hfree
    memberVehicle := Table.forall_mem_insert db.memberVehicle hvehicle
    memberComponent := Table.forall_mem_insert db.memberComponent hcomponent }

/-- `INSERT INTO vehicle_release_members`. -/
def insertMember (db : Db Value) (row : VehicleReleaseMember) : Except SqlError Unit × Db Value :=
  if hfree : db.members.Free row then
    if hvehicle : ∃ r ∈ db.vehicleReleases.rows, r.id = row.vehicleReleaseId then
      if hcomponent : ∃ r ∈ db.componentReleases.rows, r.id = row.componentReleaseId then
        (.ok (), db.addMember row hfree hvehicle hcomponent)
      else (.error (.foreignKeyViolation "vehicle_release_members_component_release_id_fkey"), db)
    else (.error (.foreignKeyViolation "vehicle_release_members_vehicle_release_id_fkey"), db)
  else (.error (.uniqueViolation "vehicle_release_members_pkey"), db)

end Db

/-! ## The statements -/

/-- The SQL statements of the create handlers. -/
inductive Sql (Value : Type) where
  | selectComponentRelease (entityPath identity : String)
  | insertComponentRelease (entityPath entityKind version identity : String)
  | insertPart (row : ComponentReleasePart)
  | selectVehicleRelease (tag identity : String)
  | updateConfigSnapshot (id : ℤ) (snapshot : Option Value)
  | insertVehicleRelease (tag version identity : String) (snapshot : Option Value)
  | insertMember (row : VehicleReleaseMember)

/-- What a statement returns. -/
abbrev Sql.Reply {Value : Type} : Sql Value → Type
  | .selectComponentRelease .. => Option ReleaseKey
  -- The `INSERT`s of headers return the row they made.
  | .insertComponentRelease .. => ReleaseKey
  | .insertPart .. => Unit
  | .selectVehicleRelease .. => Option ReleaseKey
  | .updateConfigSnapshot .. => Unit
  | .insertVehicleRelease .. => ReleaseKey
  | .insertMember .. => Unit

/-- The statements with their replies and errors. -/
abbrev sql (Value : Type) : Signature :=
  ⟨Sql Value, Sql.Reply, SqlError⟩

/-- The database server. `storable` says which documents a `JSONB` column takes. -/
def postgres {Value : Type} (storable : Value → Bool) : Service (sql Value) (Db Value) where
  exec
    | .selectComponentRelease path identity, db => db.selectComponentRelease path identity
    | .insertComponentRelease path kind version identity, db =>
      db.insertComponentRelease path kind version identity
    | .insertPart row, db => db.insertPart row
    | .selectVehicleRelease tag identity, db => db.selectVehicleRelease tag identity
    | .updateConfigSnapshot id snapshot, db => db.updateConfigSnapshot storable id snapshot
    | .insertVehicleRelease tag version identity snapshot, db =>
      db.insertVehicleRelease storable tag version identity snapshot
    | .insertMember row, db => db.insertMember row

/-! ## What the statements do -/

namespace Db

variable {Value : Type}

theorem findComponent_eq_some_iff {db : Db Value} {path identity : String} {r : ComponentRelease} :
    db.findComponent path identity = some r ↔
      r ∈ db.componentReleases.rows ∧ r.entityPath = path ∧ r.identityHash = some identity := by
  rw [findComponent, Table.find?_eq_some_iff (by grind [ComponentRelease.Clash])
    (by grind [ComponentRelease.Clash]), decide_eq_true_iff]

theorem findVehicle_eq_some_iff {db : Db Value} {tag identity : String} {r : VehicleRelease Value} :
    db.findVehicle tag identity = some r ↔
      r ∈ db.vehicleReleases.rows ∧ r.tag = tag ∧ r.identityHash = some identity := by
  rw [findVehicle, Table.find?_eq_some_iff (by grind [VehicleRelease.Clash])
    (by grind [VehicleRelease.Clash]), decide_eq_true_iff]

/-- The sequence's next id is taken by no row, so only the identity index can refuse a header. -/
theorem free_componentRelease_iff {db : Db Value} {path kind version identity : String} :
    db.componentReleases.Free ⟨db.componentSeq, path, kind, version, db.clock 0, some identity⟩ ↔
      db.findComponent path identity = none := by
  constructor
  · intro hfree
    cases hfind : db.findComponent path identity with
    | none => rfl
    | some r =>
      obtain ⟨hr, hpath, hidentity⟩ := findComponent_eq_some_iff.mp hfind
      exact absurd (.inr ⟨hpath, by simp [hidentity], hidentity⟩) (hfree r hr)
  · -- The primary key is not the constraint that is violated: ids grow.
    rintro hnone r hr (hid | ⟨hpath, -, hidentity⟩)
    · exact (db.componentIds r hr).ne hid
    · simp [findComponent_eq_some_iff.mpr ⟨hr, hpath, hidentity⟩] at hnone

theorem free_vehicleRelease_iff {db : Db Value} {tag version identity : String}
    {snapshot : Option Value} :
    db.vehicleReleases.Free ⟨db.vehicleSeq, tag, version, db.clock 0, some identity, snapshot⟩ ↔
      db.findVehicle tag identity = none := by
  constructor
  · intro hfree
    cases hfind : db.findVehicle tag identity with
    | none => rfl
    | some r =>
      obtain ⟨hr, htag, hidentity⟩ := findVehicle_eq_some_iff.mp hfind
      exact absurd (.inr ⟨htag, by simp [hidentity], hidentity⟩) (hfree r hr)
  · rintro hnone r hr (hid | ⟨htag, -, hidentity⟩)
    · exact (db.vehicleIds r hr).ne hid
    · simp [findVehicle_eq_some_iff.mpr ⟨hr, htag, hidentity⟩] at hnone

end Db

end SoftwareTower
