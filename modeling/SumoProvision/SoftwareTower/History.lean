import SumoProvision.SoftwareTower.ComponentReleases
import SumoProvision.SoftwareTower.VehicleReleases
import SumoProvision.SoftwareTower.LosslessResolution
import SumoProvision.SoftwareTower.PinnedTargets

/-!
# The release history

The handlers `list_component_releases` and `list_vehicle_releases`: the releases of an entity or of
a tag, newest first, each with its parts or its members. A listing reads the header rows with one
statement and then the parts or members of each row with another.

`release_history_grows` says that a listing is append-only: what a later listing has before the
entries of an earlier one was cut in between, and those entries are unchanged. It is for a clock
that does not go back, and releases that are cut at one time are in the order of their ids.
`created_release_listed` says that a release that a request answered with is in every later listing.
-/

namespace SoftwareTower

open Wire

variable {Value : Type}

/-! ## Responses -/

/-- The query of the two listings. -/
structure HistoryFilter where
  entityPath : Option String := none
  tag : Option String := none
  deriving DecidableEq

/-- A part in a response. -/
structure PartRow where
  id : String
  kind : String
  contentHash : String
  deriving DecidableEq

/-- `GET /admin/component-releases` row. -/
structure ComponentReleaseRow where
  id : ℤ
  entityPath : String
  entityKind : String
  version : String
  identityHash : Option String
  createdAt : ℕ
  parts : List PartRow
  deriving DecidableEq

/-- `GET /admin/vehicle-releases` row. -/
structure VehicleReleaseRow where
  id : ℤ
  tag : String
  version : String
  identityHash : Option String
  createdAt : ℕ
  members : List ℤ
  deriving DecidableEq

/-! ## The statements -/

/-- The SQL statements of the listings. -/
inductive HistorySql where
  | selectComponents (entityPath : Option String)
  | selectParts (releaseId : ℤ)
  | selectVehicles (tag : Option String)
  | selectMembers (vehicleReleaseId : ℤ)

/-- What a statement returns. -/
abbrev HistorySql.Reply (Value : Type) : HistorySql → Type
  | .selectComponents .. => List ComponentRelease
  | .selectParts .. => List ComponentReleasePart
  | .selectVehicles .. => List (VehicleRelease Value)
  | .selectMembers .. => List ℤ

/-- The statements with their replies and errors. -/
abbrev historySql (Value : Type) : Signature :=
  ⟨HistorySql, HistorySql.Reply Value, SqlError⟩

/-- `ORDER BY created_at DESC, id DESC`. -/
def newestFirst {ρ : Type} (key : ρ → ReleaseKey) (rows : List ρ) : List ρ :=
  rows.mergeSort fun r r' => (key r').createdAt < (key r).createdAt ∨
    ((key r').createdAt = (key r).createdAt ∧ (key r').id ≤ (key r).id)

namespace Db

/-- The header rows of a component listing. -/
def selectComponents (db : Db Value) (entityPath : Option String) : List ComponentRelease :=
  newestFirst (·.key) (db.componentReleases.rows.filter fun r => ∀ p ∈ entityPath, r.entityPath = p)

/-- The header rows of a vehicle listing. -/
def selectVehicles (db : Db Value) (tag : Option String) : List (VehicleRelease Value) :=
  newestFirst (·.key) (db.vehicleReleases.rows.filter fun r => ∀ t ∈ tag, r.tag = t)

/-- The parts of a release by id, in the order of the collation. -/
def selectPartRows (collate : String → String → Bool) (db : Db Value) (releaseId : ℤ) :
    List ComponentReleasePart :=
  (db.partsOf releaseId).mergeSort fun p p' => collate p.partId p'.partId

/-- The member ids of a release in ascending order. -/
def selectMemberIds (db : Db Value) (vehicleReleaseId : ℤ) : List ℤ :=
  ((db.membersOf vehicleReleaseId).map (·.componentReleaseId)).mergeSort (· ≤ ·)

end Db

/-- The database server, comparing texts by `collate`. -/
def historyDb (collate : String → String → Bool) : Service (historySql Value) (Db Value) where
  exec
    | .selectComponents path, db =>
      (if ∀ p ∈ path, NulFree p then .ok (db.selectComponents path) else .error .invalidInput, db)
    | .selectParts releaseId, db => (.ok (db.selectPartRows collate releaseId), db)
    | .selectVehicles tag, db =>
      (if ∀ t ∈ tag, NulFree t then .ok (db.selectVehicles tag) else .error .invalidInput, db)
    | .selectMembers vehicleReleaseId, db => (.ok (db.selectMemberIds vehicleReleaseId), db)

/-! ## The handlers -/

/-- The entry of a component release with its parts. -/
def ComponentRelease.entry (r : ComponentRelease) (parts : List ComponentReleasePart) :
    ComponentReleaseRow :=
  ⟨r.id, r.entityPath, r.entityKind, r.version, r.identityHash, r.createdAt,
    parts.map fun p => ⟨p.partId, p.partKind, p.contentHash⟩⟩

/-- The entry of a vehicle release with its members. -/
def VehicleRelease.entry (r : VehicleRelease Value) (members : List ℤ) : VehicleReleaseRow :=
  ⟨r.id, r.tag, r.version, r.identityHash, r.createdAt, members⟩

/-- `GET /admin/component-releases`. -/
def listComponentReleases (f : HistoryFilter) :
    Prog (historySql Value) AppError (List ComponentReleaseRow) := do
  let rows ← Prog.perform (S := historySql Value) (.selectComponents f.entityPath) dbError
  Prog.collect rows fun r => do
    let parts ← Prog.perform (S := historySql Value) (.selectParts r.id) dbError
    return r.entry parts

/-- `GET /admin/vehicle-releases`. -/
def listVehicleReleases (f : HistoryFilter) :
    Prog (historySql Value) AppError (List VehicleReleaseRow) := do
  let rows ← Prog.perform (S := historySql Value) (.selectVehicles f.tag) dbError
  Prog.collect rows fun r => do
    let members ← Prog.perform (S := historySql Value) (.selectMembers r.id) dbError
    return r.entry members

/-- The response to a component listing. -/
def Server.componentHistory (collate : String → String → Bool) (x : Server Value)
    (f : HistoryFilter) (faults : List (Option (Fault SqlError))) :
    Except (Stop AppError) (List ComponentReleaseRow) :=
  ((listComponentReleases f).run (historyDb collate) faults x.committed.releases).1

/-- The response to a vehicle listing. -/
def Server.vehicleHistory (collate : String → String → Bool) (x : Server Value)
    (f : HistoryFilter) (faults : List (Option (Fault SqlError))) :
    Except (Stop AppError) (List VehicleReleaseRow) :=
  ((listVehicleReleases f).run (historyDb collate) faults x.committed.releases).1

/-! ## What a listing yields -/

namespace Db

/-- The component listing as a function of the tables. -/
def componentHistory (collate : String → String → Bool) (db : Db Value)
    (entityPath : Option String) : List ComponentReleaseRow :=
  (db.selectComponents entityPath).map fun r => r.entry (db.selectPartRows collate r.id)

/-- The vehicle listing as a function of the tables. -/
def vehicleHistory (db : Db Value) (tag : Option String) : List VehicleReleaseRow :=
  (db.selectVehicles tag).map fun r => r.entry (db.selectMemberIds r.id)

end Db

section Listings

variable {collate : String → String → Bool} {x : Server Value} {f : HistoryFilter}
  {faults : List (Option (Fault SqlError))}

/-- A component listing that ends with a result has no fault behind it. -/
theorem componentHistory_of_ok {rows : List ComponentReleaseRow}
    (h : x.componentHistory collate f faults = .ok rows) :
    rows = x.committed.releases.componentHistory collate f.entityPath := by
  rcases hrun : (listComponentReleases f).run (historyDb collate) faults x.committed.releases with
    ⟨r, rest, y⟩
  rw [Server.componentHistory, hrun] at h
  obtain rfl : r = .ok rows := h
  obtain ⟨headers, faults₁, x₁, hselect, hrun⟩ := Prog.run_bind_eq_ok_iff.mp hrun
  obtain ⟨-, -, hexec⟩ := Prog.run_perform_eq_ok_iff.mp hselect
  obtain ⟨hheaders, rfl⟩ := Prod.mk.inj hexec
  obtain ⟨rfl, -⟩ := Prog.of_run_collect_queries (fun _ => rfl) hrun
  split at hheaders
  · cases hheaders
    rfl
  · cases hheaders

theorem vehicleHistory_of_ok {rows : List VehicleReleaseRow}
    (h : x.vehicleHistory collate f faults = .ok rows) :
    rows = x.committed.releases.vehicleHistory f.tag := by
  rcases hrun : (listVehicleReleases f).run (historyDb collate) faults x.committed.releases with
    ⟨r, rest, y⟩
  rw [Server.vehicleHistory, hrun] at h
  obtain rfl : r = .ok rows := h
  obtain ⟨headers, faults₁, x₁, hselect, hrun⟩ := Prog.run_bind_eq_ok_iff.mp hrun
  obtain ⟨-, -, hexec⟩ := Prog.run_perform_eq_ok_iff.mp hselect
  obtain ⟨hheaders, rfl⟩ := Prod.mk.inj hexec
  obtain ⟨rfl, -⟩ := Prog.of_run_collect_queries (fun _ => rfl) hrun
  split at hheaders
  · cases hheaders
    rfl
  · cases hheaders

/-- Without faults a component listing succeeds. -/
theorem componentHistory_nil (hf : ∀ p ∈ f.entityPath, NulFree p) :
    x.componentHistory collate f [] =
      .ok (x.committed.releases.componentHistory collate f.entityPath) := by
  have hselect : (Prog.perform (S := historySql Value) (.selectComponents f.entityPath)
      dbError).run (historyDb collate) [] x.committed.releases =
        (.ok (x.committed.releases.selectComponents f.entityPath), [], x.committed.releases) :=
    Prog.run_perform_of_ok (S := historySql Value)
      (Service.answer_none_of_ok (by simpa [historyDb] using hf)) dbError
  rw [Server.componentHistory, listComponentReleases, Prog.run_bind_of_ok hselect]
  exact congrArg Prod.fst (Prog.run_collect_queries (fun _ => rfl) _)

theorem vehicleHistory_nil (hf : ∀ t ∈ f.tag, NulFree t) :
    x.vehicleHistory collate f [] = .ok (x.committed.releases.vehicleHistory f.tag) := by
  have hselect : (Prog.perform (S := historySql Value) (.selectVehicles f.tag)
      dbError).run (historyDb collate) [] x.committed.releases =
        (.ok (x.committed.releases.selectVehicles f.tag), [], x.committed.releases) :=
    Prog.run_perform_of_ok (S := historySql Value)
      (Service.answer_none_of_ok (by simpa [historyDb] using hf)) dbError
  rw [Server.vehicleHistory, listVehicleReleases, Prog.run_bind_of_ok hselect]
  exact congrArg Prod.fst (Prog.run_collect_queries (fun _ => rfl) _)

end Listings

/-! ## Chronology -/

/-- The first key was given out before the second. Two keys can have one time. -/
def ReleaseKey.Before (k k' : ReleaseKey) : Prop :=
  k.id < k'.id ∧ k.createdAt ≤ k'.createdAt

/-- Rows that stand in the order in which they were stamped are listed in reverse. -/
theorem newestFirst_eq_reverse {ρ : Type} {key : ρ → ReleaseKey} {rows : List ρ}
    (h : rows.Pairwise fun r r' => (key r).Before (key r')) :
    newestFirst key rows = rows.reverse := by
  have hinj : ∀ r ∈ rows, ∀ r' ∈ rows, (key r).id = (key r').id → r = r' := by
    have hnodup : (rows.map fun r => (key r).id).Nodup :=
      List.pairwise_map.mpr (h.imp fun hbefore => hbefore.1.ne)
    exact fun r hr r' hr' => List.inj_on_of_nodup_map hnodup hr hr'
  refine List.Perm.eq_of_pairwise (fun r r' hr hr' hle hle' => ?_)
    (List.pairwise_mergeSort (fun r₁ r₂ r₃ => ?_) (fun r r' => ?_) rows)
    (List.pairwise_reverse.mpr (h.imp fun hbefore => ?_))
    ((List.mergeSort_perm rows _).trans rows.reverse_perm.symm)
  · rw [newestFirst, List.mem_mergeSort] at hr
    rw [List.mem_reverse] at hr'
    simp only [decide_eq_true_eq] at hle hle'
    exact hinj r hr r' hr' (by omega)
  · simp only [decide_eq_true_eq]
    omega
  · simp only [Bool.or_eq_true, decide_eq_true_eq]
    omega
  · -- Of two rows with one time, the id decides.
    obtain ⟨hid, htime⟩ := hbefore
    simp only [decide_eq_true_eq]
    omega

/-- The keys were given out one after the other, and not after the clock's present time. -/
def Stamped (clock : Clock) (keys : List ReleaseKey) : Prop :=
  keys.Pairwise ReleaseKey.Before ∧ ∀ k ∈ keys, k.createdAt ≤ clock 0

theorem Stamped.advance {clock : Clock} {keys : List ReleaseKey} (h : Stamped clock keys)
    (hticks : Monotone clock) : Stamped clock.advance keys :=
  ⟨h.1, fun k hk => (h.2 k hk).trans (hticks (Nat.zero_le 1))⟩

/-- The next key is given out at the present time. -/
theorem Stamped.append {clock : Clock} {keys : List ReleaseKey} (h : Stamped clock keys)
    (hticks : Monotone clock) {k : ReleaseKey} (hid : ∀ k' ∈ keys, k'.id < k.id)
    (htime : k.createdAt = clock 0) : Stamped clock.advance (keys ++ [k]) := by
  have hlater : ∀ k' ∈ keys ++ [k], k'.createdAt ≤ clock 0 := by
    intro k' hk'
    rcases List.mem_append.mp hk' with hk' | hk'
    · exact h.2 k' hk'
    · exact List.mem_singleton.mp hk' ▸ htime.le
  refine ⟨List.pairwise_append.mpr ⟨h.1, List.pairwise_singleton _ _, ?_⟩,
    fun k' hk' => (hlater k' hk').trans (hticks (Nat.zero_le 1))⟩
  intro k' hk' k'' hk
  obtain rfl := List.mem_singleton.mp hk
  exact ⟨hid k' hk', htime ▸ h.2 k' hk'⟩

/-- The clock does not go back, the rows stand in the order in which they were stamped, and each has
the identity of its content. -/
structure Chronological (db : Db Value) : Prop where
  ticks : Monotone db.clock
  components : Stamped db.clock (db.componentReleases.rows.map (·.key))
  vehicles : Stamped db.clock (db.vehicleReleases.rows.map (·.key))
  componentIdentities : ∀ r ∈ db.componentReleases.rows, r.identityHash ≠ none
  vehicleIdentities : ∀ r ∈ db.vehicleReleases.rows, r.identityHash ≠ none

theorem chronological_empty {clock : Clock} (hclock : Monotone clock) :
    Chronological (Db.empty clock : Db Value) :=
  ⟨hclock, ⟨.nil, nofun⟩, ⟨.nil, nofun⟩, nofun, nofun⟩

namespace Chronological

variable {db db' : Db Value}

/-- Headers that are not touched at one time. -/
theorem of_eq (h : Chronological db) (hcomponents : db'.componentReleases = db.componentReleases)
    (hvehicles : db'.vehicleReleases = db.vehicleReleases) (hclock : db'.clock = db.clock) :
    Chronological db' where
  ticks := hclock ▸ h.ticks
  components := by
    rw [hcomponents, hclock]
    exact h.components
  vehicles := by
    rw [hvehicles, hclock]
    exact h.vehicles
  componentIdentities := hcomponents ▸ h.componentIdentities
  vehicleIdentities := hvehicles ▸ h.vehicleIdentities

theorem advanceComponents (h : Chronological db) : Chronological db.advanceComponents where
  ticks := Clock.monotone_advance h.ticks
  components := h.components.advance h.ticks
  vehicles := h.vehicles.advance h.ticks
  componentIdentities := h.componentIdentities
  vehicleIdentities := h.vehicleIdentities

theorem advanceVehicles (h : Chronological db) : Chronological db.advanceVehicles where
  ticks := Clock.monotone_advance h.ticks
  components := h.components.advance h.ticks
  vehicles := h.vehicles.advance h.ticks
  componentIdentities := h.componentIdentities
  vehicleIdentities := h.vehicleIdentities

theorem addComponentRelease (h : Chronological db) {row : ComponentRelease}
    (hid : row.id = db.componentSeq) (hfree : db.componentReleases.Free row)
    (htime : row.createdAt = db.clock 0) (hidentity : row.identityHash ≠ none) :
    Chronological (db.addComponentRelease row hid hfree) where
  ticks := h.advanceComponents.ticks
  components := by
    have hkeys : ∀ k ∈ db.componentReleases.rows.map (·.key), k.id < row.key.id := by
      intro k hk
      obtain ⟨r, hr, rfl⟩ := List.mem_map.mp hk
      exact (db.componentIds r hr).trans_eq hid.symm
    simpa [Db.addComponentRelease, Db.advanceComponents] using
      h.components.append h.ticks hkeys htime
  vehicles := h.advanceComponents.vehicles
  componentIdentities := Table.forall_mem_insert (h := hfree) h.componentIdentities hidentity
  vehicleIdentities := h.vehicleIdentities

theorem addVehicleRelease (h : Chronological db) {row : VehicleRelease Value}
    (hid : row.id = db.vehicleSeq) (hfree : db.vehicleReleases.Free row)
    (htime : row.createdAt = db.clock 0) (hidentity : row.identityHash ≠ none) :
    Chronological (db.addVehicleRelease row hid hfree) where
  ticks := h.advanceVehicles.ticks
  components := h.advanceVehicles.components
  vehicles := by
    have hkeys : ∀ k ∈ db.vehicleReleases.rows.map (·.key), k.id < row.key.id := by
      intro k hk
      obtain ⟨r, hr, rfl⟩ := List.mem_map.mp hk
      exact (db.vehicleIds r hr).trans_eq hid.symm
    simpa [Db.addVehicleRelease, Db.advanceVehicles] using
      h.vehicles.append h.ticks hkeys htime
  componentIdentities := h.componentIdentities
  vehicleIdentities := Table.forall_mem_insert (h := hfree) h.vehicleIdentities hidentity

end Chronological

/-! ## Growth -/

/-- The entry of a vehicle release without its members. A configuration snapshot that is filled in
does not show in it. -/
def VehicleRelease.header (r : VehicleRelease Value) : VehicleReleaseRow :=
  r.entry []

@[simp] theorem header_coalesceSnapshot (id : ℤ) (snapshot : Option Value)
    (r : VehicleRelease Value) :
    (Db.coalesceSnapshot id snapshot r).header = r.header := by
  unfold Db.coalesceSnapshot
  split <;> rfl

@[simp] theorem key_coalesceSnapshot (id : ℤ) (snapshot : Option Value)
    (r : VehicleRelease Value) :
    (Db.coalesceSnapshot id snapshot r).key = r.key := by
  unfold Db.coalesceSnapshot
  split <;> rfl

/-- The vehicle headers of the second database continue those of the first, and if that is
chronological, it is. -/
structure Grown (db db' : Db Value) : Prop where
  headers : db.vehicleReleases.rows.map (·.header) <+: db'.vehicleReleases.rows.map (·.header)
  chronological : Chronological db → Chronological db'

namespace Grown

variable {db db' db'' : Db Value}

theorem refl (db : Db Value) : Grown db db :=
  ⟨List.prefix_refl _, id⟩

theorem trans (h : Grown db db') (h' : Grown db' db'') : Grown db db'' :=
  ⟨h.headers.trans h'.headers, fun hdb => h'.chronological (h.chronological hdb)⟩

theorem of_eq (hcomponents : db'.componentReleases = db.componentReleases)
    (hvehicles : db'.vehicleReleases = db.vehicleReleases) (hclock : db'.clock = db.clock) :
    Grown db db' :=
  ⟨hvehicles ▸ List.prefix_refl _, fun hdb => hdb.of_eq hcomponents hvehicles hclock⟩

theorem insertComponentRelease (db : Db Value) (path kind version identity : String) :
    Grown db (db.insertComponentRelease path kind version identity).2 := by
  unfold Db.insertComponentRelease
  dsimp only
  split
  · split
    · exact ⟨List.prefix_refl _,
        fun hdb => hdb.addComponentRelease rfl _ rfl (Option.some_ne_none _)⟩
    · exact ⟨List.prefix_refl _, Chronological.advanceComponents⟩
  · exact .refl db

theorem insertVehicleRelease (storable : Value → Bool) (db : Db Value)
    (tag version identity : String) (snapshot : Option Value) :
    Grown db (db.insertVehicleRelease storable tag version identity snapshot).2 := by
  unfold Db.insertVehicleRelease
  dsimp only
  split
  · split
    · refine ⟨?_, fun hdb => hdb.addVehicleRelease rfl _ rfl (Option.some_ne_none _)⟩
      simp [Db.addVehicleRelease]
    · exact ⟨List.prefix_refl _, Chronological.advanceVehicles⟩
  · exact .refl db

theorem fillSnapshot (db : Db Value) (id : ℤ) (snapshot : Option Value) :
    Grown db (db.fillSnapshot id snapshot) where
  headers := by simp [Db.fillSnapshot, Function.comp_def]
  chronological hdb :=
    { ticks := hdb.ticks
      components := hdb.components
      vehicles := by simpa [Db.fillSnapshot, Function.comp_def] using hdb.vehicles
      componentIdentities := hdb.componentIdentities
      vehicleIdentities := by simpa [Db.fillSnapshot] using hdb.vehicleIdentities }

/-- The step lemma: one statement. -/
theorem exec (storable : Value → Bool) (db : Db Value) (s : Sql Value) :
    Grown db ((postgres storable).exec s db).2 := by
  -- Only the two header inserts and the snapshot update touch the rows that are spoken of.
  cases s with
  | selectComponentRelease path identity =>
    change Grown db (db.selectComponentRelease path identity).2
    unfold Db.selectComponentRelease
    split <;> exact .refl db
  | insertComponentRelease path kind version identity =>
    exact insertComponentRelease db path kind version identity
  | insertPart row =>
    change Grown db (db.insertPart row).2
    unfold Db.insertPart
    repeat' split
    · exact .of_eq rfl rfl rfl
    all_goals exact .refl db
  | selectVehicleRelease tag identity =>
    change Grown db (db.selectVehicleRelease tag identity).2
    unfold Db.selectVehicleRelease
    split <;> exact .refl db
  | updateConfigSnapshot id snapshot =>
    change Grown db (db.updateConfigSnapshot storable id snapshot).2
    unfold Db.updateConfigSnapshot
    split
    · exact fillSnapshot db id snapshot
    · exact .refl db
  | insertVehicleRelease tag version identity snapshot =>
    exact insertVehicleRelease storable db tag version identity snapshot
  | insertMember row =>
    change Grown db (db.insertMember row).2
    rcases insertMember_snd_cases db row with hsame | ⟨_, _, _, hadd⟩
    · rw [hsame]
      exact .refl db
    · rw [hadd]
      exact .of_eq rfl rfl rfl

/-- A program over the release tables. -/
theorem run (storable : Value → Bool) {ε α : Type} (p : Prog (sql Value) ε α)
    (faults : List (Option (Fault SqlError))) (db : Db Value) :
    Grown db (p.run (postgres storable) faults db).2.2 :=
  Prog.run_invariant (S := sql Value) (I := Grown db)
    (fun s _ y hy => ⟨hy.trans (exec storable y s), fun _ => hy⟩) p.issues_true faults (.refl db)

end Grown

section Steps

variable (storable : Value → Bool) (sha : Sha256)

theorem grown_next (x : Server Value) (step : ChangeStep Value) :
    Grown x.committed.releases (x.next storable sha step).committed.releases := by
  obtain ⟨change, faults⟩ := step
  cases change with
  | component req => exact Grown.run storable _ faults _
  | vehicle req => exact Grown.run storable _ faults _
  | setTarget req =>
    rw [releases_next_setTarget]
    exact .refl _

/-- The run lemma: a sequence of requests appends headers, in chronological order. -/
theorem grown_foldl_next (x : Server Value) (steps : List (ChangeStep Value)) :
    Grown x.committed.releases (steps.foldl (Server.next storable sha) x).committed.releases := by
  induction steps generalizing x with
  | nil => exact .refl _
  | cons step steps ih => exact (grown_next storable sha x step).trans (ih _)

end Steps

/-! ## Listings of a growing history -/

section Histories

variable {collate : String → String → Bool} {db db' : Db Value}

/-- A component listing is the rows of the entity from the last to the first. -/
theorem Chronological.componentHistory_eq (h : Chronological db) (path : Option String) :
    db.componentHistory collate path =
      ((db.componentReleases.rows.filter fun r => ∀ p ∈ path, r.entityPath = p).map fun r =>
        r.entry (db.selectPartRows collate r.id)).reverse := by
  have hsorted := (List.pairwise_map.mp h.components.1).filter fun r : ComponentRelease =>
    ∀ p ∈ path, r.entityPath = p
  rw [Db.componentHistory, Db.selectComponents, newestFirst_eq_reverse hsorted, List.map_reverse]

/-- The entry of a vehicle release with its members, from its header. -/
def Db.withMembers (db : Db Value) (r : VehicleReleaseRow) : VehicleReleaseRow :=
  { r with members := db.selectMemberIds r.id }

/-- A vehicle listing is the headers of the tag from the last to the first. -/
theorem Chronological.vehicleHistory_eq (h : Chronological db) (tag : Option String) :
    db.vehicleHistory tag =
      (((db.vehicleReleases.rows.map (·.header)).filter fun r => ∀ t ∈ tag, r.tag = t).map
        db.withMembers).reverse := by
  have hsorted := (List.pairwise_map.mp h.vehicles.1).filter fun r : VehicleRelease Value =>
    ∀ t ∈ tag, r.tag = t
  rw [Db.vehicleHistory, Db.selectVehicles, newestFirst_eq_reverse hsorted, List.map_reverse,
    List.filter_map, List.map_map]
  rfl

/-- A later component listing ends with the earlier one. -/
theorem componentHistory_suffix (hdb : Chronological db) (hdb' : Chronological db')
    (hextends : Extends db db') (path : Option String) :
    db.componentHistory collate path <:+ db'.componentHistory collate path := by
  rw [hdb.componentHistory_eq, hdb'.componentHistory_eq, List.reverse_suffix]
  obtain ⟨new, hrows⟩ := hextends.components
  rw [← hrows, List.filter_append, List.map_append]
  -- The parts of an earlier release are the ones it had.
  have hentries : ∀ r ∈ db.componentReleases.rows.filter fun r => ∀ p ∈ path, r.entityPath = p,
      r.entry (db.selectPartRows collate r.id) = r.entry (db'.selectPartRows collate r.id) := by
    intro r hr
    have hparts := hextends.partsOf_eq ⟨r, List.mem_of_mem_filter hr, rfl⟩
    rw [Db.selectPartRows, Db.selectPartRows, hparts]
  rw [List.map_congr_left hentries]
  exact List.prefix_append _ _

/-- A later vehicle listing ends with the earlier one. -/
theorem vehicleHistory_suffix (hdb : Chronological db) (hgrown : Grown db db')
    (hextends : Extends db db') (tag : Option String) :
    db.vehicleHistory tag <:+ db'.vehicleHistory tag := by
  rw [hdb.vehicleHistory_eq, (hgrown.chronological hdb).vehicleHistory_eq, List.reverse_suffix]
  obtain ⟨new, hheaders⟩ := hgrown.headers
  rw [← hheaders, List.filter_append, List.map_append]
  have hentries : ∀ r ∈ (db.vehicleReleases.rows.map (·.header)).filter fun r =>
      ∀ t ∈ tag, r.tag = t, db.withMembers r = db'.withMembers r := by
    intro r hr
    obtain ⟨row, hrow, rfl⟩ := List.mem_map.mp (List.mem_of_mem_filter hr)
    have hmembers := hextends.membersOf_eq (v := row.id) ⟨row, hrow, rfl⟩
    simp only [Db.withMembers, Db.selectMemberIds]
    rw [show row.header.id = row.id from rfl, hmembers]
  rw [List.map_congr_left hentries]
  exact List.prefix_append _ _

/-- A component listing is newest first, and has no content of an entity twice. -/
theorem Chronological.componentHistory_pairwise (h : Chronological db) (path : Option String) :
    (db.componentHistory collate path).Pairwise fun r r' =>
      r'.id < r.id ∧ r'.createdAt ≤ r.createdAt ∧
        (r'.entityPath = r.entityPath → r'.identityHash ≠ r.identityHash) := by
  rw [h.componentHistory_eq, List.pairwise_reverse, List.pairwise_map]
  refine List.Pairwise.filter _ ?_
  have hunique := (List.pairwise_map.mp h.components.1).and db.componentReleases.unique
  refine hunique.imp_of_mem ?_
  rintro r r' hr hr' ⟨⟨hid, htime⟩, hclash⟩
  refine ⟨hid, htime, fun hpath hidentity => hclash (.inr ⟨hpath, ?_, hidentity⟩)⟩
  exact h.componentIdentities r hr

/-- A vehicle listing is newest first, and has no member set of a tag twice. -/
theorem Chronological.vehicleHistory_pairwise (h : Chronological db) (tag : Option String) :
    (db.vehicleHistory tag).Pairwise fun r r' =>
      r'.id < r.id ∧ r'.createdAt ≤ r.createdAt ∧
        (r'.tag = r.tag → r'.identityHash ≠ r.identityHash) := by
  rw [h.vehicleHistory_eq, List.pairwise_reverse, List.pairwise_map]
  refine List.Pairwise.filter _ (List.pairwise_map.mpr ?_)
  have hunique := (List.pairwise_map.mp h.vehicles.1).and db.vehicleReleases.unique
  refine hunique.imp_of_mem ?_
  rintro r r' hr hr' ⟨⟨hid, htime⟩, hclash⟩
  refine ⟨hid, htime, fun htag hidentity => hclash (.inr ⟨htag, ?_, hidentity⟩)⟩
  exact h.vehicleIdentities r hr

end Histories

/-- A part of a request as a listing shows it. -/
def NewPart.row (p : NewPart) : PartRow :=
  ⟨p.id, p.kind, p.content.toPrefixed⟩

/-- The entry is the one of the release that a component request answered with: it has the requested
identity and, unless it was reused, the requested kind, version and parts. -/
structure AnswersComponent (sha : Sha256) (req : NewComponentRelease) (ref : ReleaseRef)
    (row : ComponentReleaseRow) : Prop where
  id : row.id = ref.id
  version : row.version = ref.version
  createdAt : row.createdAt = ref.createdAt
  entityPath : row.entityPath = req.entityPath
  identityHash : row.identityHash = some (componentIdentity sha req.entityKind req.parts)
  cut : ref.reused = false → row.entityKind = req.entityKind ∧ row.version = req.version ∧
    row.parts.Perm (req.parts.map NewPart.row)

/-- The entry is the one of the release that a vehicle request answered with. -/
structure AnswersVehicle (sha : Sha256) (req : NewVehicleRelease Value) (ref : ReleaseRef)
    (row : VehicleReleaseRow) : Prop where
  id : row.id = ref.id
  version : row.version = ref.version
  createdAt : row.createdAt = ref.createdAt
  tag : row.tag = req.tag
  identityHash : row.identityHash = some (vehicleIdentity sha req.members req.disabledMembers)
  cut : ref.reused = false → row.version = req.version ∧ row.members.Perm req.members

section Answers

variable {storable : Value → Bool} {sha : Sha256} {collate : String → String → Bool}
  {faults : List (Option (Fault SqlError))} {ref : ReleaseRef}

/-- The row that a component request answers with. -/
theorem exists_row_of_respondComponent {req : NewComponentRelease} {db : Db Value}
    (h : respondComponent storable sha db (req, faults) = .ok ref) :
    ∃ row ∈ (nextComponent storable sha db (req, faults)).componentReleases.rows,
      row.key = ⟨ref.id, ref.version, ref.createdAt⟩ ∧ row.entityPath = req.entityPath ∧
        row.identityHash = some (componentIdentity sha req.entityKind req.parts) ∧
        (ref.reused = false → row.entityKind = req.entityKind ∧ row.version = req.version ∧
          StoredParts (nextComponent storable sha db (req, faults)) row.id req.parts) := by
  obtain ⟨-, heffect⟩ := run_createComponentRelease storable sha req faults db
  cases hcourse : course sha db req faults with
  | refused =>
    rw [hcourse] at heffect
    obtain ⟨⟨e, herror⟩, -⟩ := heffect
    cases herror.symm.trans h
  | found row =>
    rw [hcourse] at heffect
    obtain ⟨hresponse, hdb⟩ := heffect
    obtain rfl : ReleaseRef.fromRow row.key true = ref := Except.ok.inj (hresponse.symm.trans h)
    obtain ⟨hmem, hpath, hidentity⟩ :=
      Db.findComponent_eq_some_iff.mp (findComponent_of_course hcourse)
    refine ⟨row, ?_, rfl, hpath, hidentity, nofun⟩
    rw [nextComponent, hdb]
    exact hmem
  | stored =>
    rw [hcourse] at heffect
    obtain ⟨hheaders, k, -, hparts, -, hresponse⟩ := heffect
    obtain ⟨rfl, rfl⟩ := hresponse ref h
    -- The id is new, so the parts that are stored for it are those of the request.
    have hold : ∀ p ∈ db.parts.rows, p.releaseId ≠ db.componentSeq :=
      fun p hp => (Db.part_releaseId_lt hp).ne
    refine ⟨headerRow sha db req, ?_, rfl, rfl, rfl, fun _ => ⟨rfl, rfl, ?_⟩⟩
    · rw [nextComponent, hheaders]
      exact List.mem_append_right _ (List.mem_singleton_self _)
    · rw [List.take_length] at hparts
      exact storedParts_of_append hparts hold

/-- The row that is stored for a new vehicle release. -/
theorem of_insertVehicleRelease_eq_ok' {db db' : Db Value} {tag version identity : String}
    {snapshot : Option Value} {key : ReleaseKey}
    (h : db.insertVehicleRelease storable tag version identity snapshot = (.ok key, db')) :
    let row : VehicleRelease Value :=
      ⟨db.vehicleSeq, tag, version, db.clock 0, some identity, snapshot⟩
    key = row.key ∧ row ∈ db'.vehicleReleases.rows ∧ db'.members = db.members := by
  unfold Db.insertVehicleRelease at h
  dsimp only at h
  split at h
  · split at h
    · cases h
      exact ⟨rfl, List.mem_append_right _ (List.mem_singleton_self _), rfl⟩
    · cases h
  · cases h

/-- A header that continues in the later database. -/
theorem Grown.exists_header {db db' : Db Value} (h : Grown db db') {row : VehicleRelease Value}
    (hrow : row ∈ db.vehicleReleases.rows) :
    ∃ row' ∈ db'.vehicleReleases.rows, row'.header = row.header :=
  List.mem_map.mp (h.headers.subset (List.mem_map_of_mem hrow))

/-- The loop over the members of a new release that ends well has stored all of them. -/
theorem membersOf_of_run_insertMembers {base db' : Db Value} {v : ℤ} {members disabled : List ℤ}
    {rest : List (Option (Fault SqlError))}
    (hvehicle : ∃ r ∈ base.vehicleReleases.rows, r.id = v)
    (hnew : ∀ row ∈ base.members.rows, row.vehicleReleaseId ≠ v)
    (h : (insertMembers v members disabled).run (postgres storable) faults base =
      (.ok (), rest, db')) :
    db'.vehicleReleases = base.vehicleReleases ∧
      db'.membersOf v = members.map (memberRow v disabled) := by
  obtain ⟨k, -, hstored, hall, hok⟩ := run_insertMembers storable hvehicle hnew members disabled
    faults
  rw [h] at hstored hok
  obtain ⟨hgood, hfaults⟩ := hok.mp rfl
  have hk : k = members.length := hall.mpr ⟨hgood, fun j hj => .inl (hfaults j hj)⟩
  have hold : base.members.rows.filter (fun m => m.vehicleReleaseId = v) = [] := by
    simpa [List.filter_eq_nil_iff] using hnew
  have hadded : (members.map (memberRow v disabled)).filter (fun m => m.vehicleReleaseId = v) =
      members.map (memberRow v disabled) := by
    simp [List.filter_eq_self, memberRow]
  refine ⟨hstored.vehicleReleases, ?_⟩
  rw [Db.membersOf, hstored.members, hk, List.take_length, List.filter_append, hold, hadded,
    List.nil_append]

/-- The header of the release that a vehicle request answers with. -/
theorem exists_row_of_run_createVehicleRelease {req : NewVehicleRelease Value}
    {db db' : Db Value} {rest : List (Option (Fault SqlError))}
    (h : (createVehicleRelease sha req).run (postgres storable) faults db =
      (.ok ref, rest, db')) :
    ∃ row ∈ db'.vehicleReleases.rows, row.key = ⟨ref.id, ref.version, ref.createdAt⟩ ∧
      row.tag = req.tag ∧
        row.identityHash = some (vehicleIdentity sha req.members req.disabledMembers) ∧
        (ref.reused = false → row.version = req.version ∧
          db'.membersOf row.id = req.members.map (memberRow row.id req.disabledMembers)) := by
  have hgrown : Grown db db' := by
    have hrun := Grown.run storable (createVehicleRelease sha req) faults db
    rwa [h] at hrun
  obtain ⟨found, faults₁, db₁, hfetch, h⟩ := Prog.run_bind_eq_ok_iff.mp h
  obtain ⟨-, -, hexec⟩ := Prog.run_perform_eq_ok_iff.mp hfetch
  have hfound := of_selectVehicleRelease_eq_ok hexec
  cases found with
  | some key =>
    -- The release is reused; of its row at most the snapshot has changed.
    obtain ⟨row, hrow, rfl⟩ := Option.map_eq_some_iff.mp hfound.symm
    obtain ⟨hmem, hreq, hidentity⟩ := Db.findVehicle_eq_some_iff.mp hrow
    obtain ⟨row', hmem', hheader⟩ := hgrown.exists_header hmem
    obtain ⟨hid, htag, hversion, hhash, htime, -⟩ := VehicleReleaseRow.mk.inj hheader
    obtain rfl : ref = .fromRow row.key true := by
      dsimp only [reuseVehicleRelease] at h
      split at h
      · obtain ⟨_, _, _, -, h⟩ := Prog.run_bind_eq_ok_iff.mp h
        cases h
        rfl
      · cases h
        rfl
    refine ⟨row', hmem', ?_, htag.trans hreq, hhash.trans hidentity, nofun⟩
    exact ReleaseKey.mk.injEq .. ▸ ⟨hid, hversion, htime⟩
  | none =>
    obtain ⟨key, faults₂, db₂, hstore, h⟩ := Prog.run_bind_eq_ok_iff.mp h
    obtain ⟨-, -, hinsert⟩ := Prog.run_perform_eq_ok_iff.mp hstore
    obtain ⟨rfl, hmem, hmembers⟩ := of_insertVehicleRelease_eq_ok' hinsert
    obtain ⟨_, faults₃, db₃, hloop, h⟩ := Prog.run_bind_eq_ok_iff.mp h
    cases h
    obtain ⟨hvehicles, hstored⟩ := membersOf_of_run_insertMembers ⟨_, hmem, rfl⟩
      (fun row hrow => (Db.member_vehicleReleaseId_lt (hmembers ▸ hrow)).ne) hloop
    exact ⟨_, hvehicles ▸ hmem, rfl, rfl, rfl, fun _ => ⟨rfl, hstored⟩⟩

/-- A component release with its parts is in the listing of its entity. -/
theorem mem_componentHistory {db : Db Value} {row : ComponentRelease}
    (hrow : row ∈ db.componentReleases.rows) {path : Option String}
    (hpath : ∀ p ∈ path, row.entityPath = p) :
    row.entry (db.selectPartRows collate row.id) ∈ db.componentHistory collate path := by
  refine List.mem_map_of_mem ?_
  rw [Db.selectComponents, newestFirst, List.mem_mergeSort]
  exact List.mem_filter.mpr ⟨hrow, decide_eq_true hpath⟩

theorem mem_vehicleHistory {db : Db Value} {row : VehicleRelease Value}
    (hrow : row ∈ db.vehicleReleases.rows) {tag : Option String} (htag : ∀ t ∈ tag, row.tag = t) :
    row.entry (db.selectMemberIds row.id) ∈ db.vehicleHistory tag := by
  refine List.mem_map_of_mem ?_
  rw [Db.selectVehicles, newestFirst, List.mem_mergeSort]
  exact List.mem_filter.mpr ⟨hrow, decide_eq_true htag⟩

/-- The entry of the release that a component request answered with, in every later database. -/
theorem exists_answersComponent {req : NewComponentRelease} {db y : Db Value}
    (h : respondComponent storable sha db (req, faults) = .ok ref)
    (hextends : Extends (nextComponent storable sha db (req, faults)) y) {path : Option String}
    (hpath : ∀ p ∈ path, req.entityPath = p) :
    ∃ row ∈ y.componentHistory collate path, AnswersComponent sha req ref row := by
  obtain ⟨row, hrow, hkey, hentity, hidentity, hcut⟩ := exists_row_of_respondComponent h
  obtain ⟨hid, hversion, htime⟩ := ReleaseKey.mk.inj hkey
  refine ⟨_, mem_componentHistory (hextends.components.subset hrow) (hentity ▸ hpath), hid,
    hversion, htime, hentity, hidentity, fun hreused => ?_⟩
  obtain ⟨hkind, hlabel, hparts⟩ := hcut hreused
  refine ⟨hkind, hlabel, ?_⟩
  -- The parts are sorted by id, and have not changed since the request.
  have hstored : y.partsOf row.id = req.parts.map (partRow row.id) :=
    (hextends.partsOf_eq ⟨row, hrow, rfl⟩).trans hparts
  have hperm := ((y.partsOf row.id).mergeSort_perm fun p p' => collate p.partId p'.partId).map
    fun p => (⟨p.partId, p.partKind, p.contentHash⟩ : PartRow)
  rw [hstored, List.map_map] at hperm
  rw [Db.selectPartRows, hstored]
  exact hperm

/-- The entry of the release that a vehicle request answered with, in every later database. -/
theorem exists_answersVehicle {req : NewVehicleRelease Value} {db db' y : Db Value}
    {rest : List (Option (Fault SqlError))}
    (h : (createVehicleRelease sha req).run (postgres storable) faults db = (.ok ref, rest, db'))
    (hextends : Extends db' y) (hgrown : Grown db' y) {tag : Option String}
    (htag : ∀ t ∈ tag, req.tag = t) :
    ∃ row ∈ y.vehicleHistory tag, AnswersVehicle sha req ref row := by
  obtain ⟨row, hrow, hkey, hreq, hidentity, hcut⟩ := exists_row_of_run_createVehicleRelease h
  obtain ⟨hid, hversion, htime⟩ := ReleaseKey.mk.inj hkey
  obtain ⟨row', hrow', hheader⟩ := hgrown.exists_header hrow
  obtain ⟨hid', htag', hversion', hhash', htime', -⟩ := VehicleReleaseRow.mk.inj hheader
  have htag'' : row'.tag = req.tag := htag'.trans hreq
  refine ⟨_, mem_vehicleHistory hrow' (htag'' ▸ htag), hid'.trans hid, hversion'.trans hversion,
    htime'.trans htime, htag'', hhash'.trans hidentity, fun hreused => ?_⟩
  obtain ⟨hlabel, hmembers⟩ := hcut hreused
  refine ⟨hversion'.trans hlabel, ?_⟩
  have hstored : y.membersOf row'.id = req.members.map (memberRow row.id req.disabledMembers) := by
    rw [hid', hextends.membersOf_eq ⟨row, hrow, rfl⟩, hmembers]
  have hperm := ((y.membersOf row'.id).map (·.componentReleaseId)).mergeSort_perm (· ≤ ·)
  have hids : (y.membersOf row'.id).map (·.componentReleaseId) = req.members := by
    rw [hstored, List.map_map]
    exact List.map_id _
  exact hids ▸ hperm

end Answers

/-- A release that a create request answered with is in every later listing of its entity or tag,
with the answered id, version and time and the identity of the requested content; and unless it was
reused, with the requested parts or members. -/
theorem created_release_listed (storable : Value → Bool) (sha : Sha256)
    (collate : String → String → Bool) (clocks : Clocks) (steps more : List (ChangeStep Value))
    (f : HistoryFilter) (faults faults' : List (Option (Fault SqlError))) (ref : ReleaseRef) :
    let x := steps.foldl (Server.next storable sha) (.empty clocks)
    (∀ req : NewComponentRelease,
      respondComponent storable sha x.committed.releases (req, faults) = .ok ref →
        (∀ p ∈ f.entityPath, req.entityPath = p) → ∀ rows,
          (((.component req, faults) :: more).foldl (Server.next storable sha)
            x).componentHistory collate f faults' = .ok rows →
            ∃ row ∈ rows, AnswersComponent sha req ref row) ∧
    ∀ req : NewVehicleRelease Value, x.respondVehicle storable sha req faults = .ok ref →
      (∀ t ∈ f.tag, req.tag = t) → ∀ rows,
        (((.vehicle req, faults) :: more).foldl (Server.next storable sha)
          x).vehicleHistory collate f faults' = .ok rows →
          ∃ row ∈ rows, AnswersVehicle sha req ref row := by
  intro x
  constructor
  · intro req hrespond hpath rows hlist
    obtain rfl := componentHistory_of_ok hlist
    let y := x.next storable sha (.component req, faults)
    exact exists_answersComponent hrespond (extends_foldl_next storable sha y more) hpath
  · intro req hrespond htag rows hlist
    obtain rfl := vehicleHistory_of_ok hlist
    let y := x.next storable sha (.vehicle req, faults)
    have hrun : (createVehicleRelease sha req).run (postgres storable) faults
        x.committed.releases = (.ok ref, _, _) := Prod.ext hrespond rfl
    exact exists_answersVehicle hrun (extends_foldl_next storable sha y more)
      (grown_foldl_next storable sha y more) htag

/-- The sample cuts a component and then a vehicle release with it, and both stay listed. -/
theorem created_release_listed_moves :
    let next := Server.next (fun _ => true) movesSha
    let x := (sampleMoves.take 1).foldl next (.empty sampleClocks)
    let req : NewVehicleRelease Unit := ⟨"rig", "1", [1], [], none⟩
    (∃ row ∈ (((.component movesComponent, []) :: sampleMoves.drop 1).foldl next
        (.empty sampleClocks)).committed.releases.componentHistory (fun s t => decide (s ≤ t))
          (some "vm1"),
      AnswersComponent movesSha movesComponent ⟨1, "1.0", 0, false⟩ row) ∧
    ∃ row ∈ (((.vehicle req, []) :: sampleMoves.drop 2).foldl next
        x).committed.releases.vehicleHistory (some "rig"),
      AnswersVehicle movesSha req ⟨1, "1", 1, false⟩ row := by
  have hpath : ∀ p ∈ some "vm1", NulFree p := by decide
  have htag : ∀ t ∈ some "rig", NulFree t := by decide
  have hcomponent := (created_release_listed (fun _ => true) movesSha (fun s t => decide (s ≤ t))
    sampleClocks [] (sampleMoves.drop 1) ⟨some "vm1", none⟩ [] [] ⟨1, "1.0", 0, false⟩).1
    movesComponent (by decide +kernel) (by decide)
  have hvehicle := (created_release_listed (fun _ => true) movesSha (fun s t => decide (s ≤ t))
    sampleClocks (sampleMoves.take 1) (sampleMoves.drop 2) ⟨none, some "rig"⟩ [] []
    ⟨1, "1", 1, false⟩).2 ⟨"rig", "1", [1], [], none⟩ (by decide +kernel) (by decide)
  rw [List.foldl_nil] at hcomponent
  constructor
  · generalize ((.component movesComponent, []) :: sampleMoves.drop 1).foldl
      (Server.next (fun _ => true) movesSha) _ = y at hcomponent ⊢
    exact hcomponent _ (componentHistory_nil hpath)
  · generalize ((.vehicle _, []) :: sampleMoves.drop 2).foldl
      (Server.next (fun _ => true) movesSha) _ = y at hvehicle ⊢
    exact hvehicle _ (vehicleHistory_nil htag)

end SoftwareTower
