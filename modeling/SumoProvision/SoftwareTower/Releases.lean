import SumoProvision.SoftwareTower.Database

/-!
# Creating releases

The handlers `create_component_release` and `create_vehicle_release` as programs over the release
database. Both look a release up by its content identity, return it if it exists, and otherwise
insert a header row and then one row for each part or member, every statement on its own.

`run_createComponentRelease` says all that one component request can do, under every schedule of
database faults.
-/

namespace SoftwareTower

open Wire

/-! ## Requests and responses -/

/-- `POST /admin/component-releases` body. -/
structure NewComponentRelease where
  entityPath : String
  entityKind : String
  version : String
  parts : List NewPart
  deriving DecidableEq

/-- `POST /admin/vehicle-releases` body. -/
structure NewVehicleRelease (Value : Type) where
  tag : String
  version : String
  members : List ℤ
  disabledMembers : List ℤ := []
  configSnapshot : Option Value := none
  deriving DecidableEq

/-- A resolved release; `reused` if the content already had one. -/
structure ReleaseRef where
  id : ℤ
  version : String
  createdAt : ℕ
  reused : Bool
  deriving DecidableEq

/-- The response for a selected or returned row. -/
def ReleaseRef.fromRow (row : ReleaseKey) (reused : Bool) : ReleaseRef :=
  ⟨row.id, row.version, row.createdAt, reused⟩

/-! ## The handlers -/

/-- Map a database error into an `AppError`. -/
def dbError (e : SqlError) : AppError :=
  .internal (.sql e)

section Handlers

variable {Value : Type}

/-- Look a component release up by its content. -/
def fetchComponentRelease (entityPath identity : String) :
    Prog (sql Value) AppError (Option ReleaseKey) :=
  Prog.perform (S := sql Value) (.selectComponentRelease entityPath identity) dbError

/-- Store the header row of a component release. -/
def storeComponentRelease (entityPath entityKind version identity : String) :
    Prog (sql Value) AppError ReleaseKey :=
  Prog.perform (S := sql Value) (.insertComponentRelease entityPath entityKind version identity)
    dbError

/-- The row a part is stored as. -/
def partRow (releaseId : ℤ) (p : NewPart) : ComponentReleasePart :=
  ⟨releaseId, p.id, p.kind, p.content.toPrefixed⟩

/-- Store the parts of a new release one by one. -/
def insertParts (releaseId : ℤ) (parts : List NewPart) : Prog (sql Value) AppError Unit :=
  Prog.forEach parts fun p =>
    Prog.execute (S := sql Value) (.insertPart (partRow releaseId p)) dbError

/-- Cut a new component release. -/
def cutComponentRelease (sha : Sha256) (req : NewComponentRelease) :
    Prog (sql Value) AppError ReleaseRef := do
  let identity := componentIdentity sha req.entityKind req.parts
  let row ← storeComponentRelease req.entityPath req.entityKind req.version identity
  -- From here on the header is committed, whatever happens to the parts.
  insertParts row.id req.parts
  return .fromRow row false

/-- `POST /admin/component-releases`. -/
def createComponentRelease (sha : Sha256) (req : NewComponentRelease) :
    Prog (sql Value) AppError ReleaseRef := do
  match ← fetchComponentRelease req.entityPath (componentIdentity sha req.entityKind req.parts) with
  -- The header alone decides; its parts are not looked at.
  | some row => return .fromRow row true
  | none => cutComponentRelease sha req

/-- Look a vehicle release up by its content. -/
def fetchVehicleRelease (tag identity : String) : Prog (sql Value) AppError (Option ReleaseKey) :=
  Prog.perform (S := sql Value) (.selectVehicleRelease tag identity) dbError

/-- Store the header row of a vehicle release. -/
def storeVehicleRelease (tag version identity : String) (snapshot : Option Value) :
    Prog (sql Value) AppError ReleaseKey :=
  Prog.perform (S := sql Value) (.insertVehicleRelease tag version identity snapshot) dbError

/-- The row a member is stored as. -/
def memberRow (vehicleReleaseId : ℤ) (disabledMembers : List ℤ) (m : ℤ) : VehicleReleaseMember :=
  ⟨vehicleReleaseId, m, disabledMembers.contains m⟩

/-- Store the members of a new release one by one. -/
def insertMembers (vehicleReleaseId : ℤ) (members disabledMembers : List ℤ) :
    Prog (sql Value) AppError Unit :=
  Prog.forEach members fun m =>
    Prog.execute (S := sql Value) (.insertMember (memberRow vehicleReleaseId disabledMembers m))
      dbError

/-- Fill in the configuration snapshot of a release that is reused. -/
def reuseVehicleRelease (req : NewVehicleRelease Value) (row : ReleaseKey) :
    Prog (sql Value) AppError ReleaseRef := do
  if req.configSnapshot.isSome then
    Prog.execute (S := sql Value) (.updateConfigSnapshot row.id req.configSnapshot) dbError
  return .fromRow row true

/-- Cut a new vehicle release. -/
def cutVehicleRelease (sha : Sha256) (req : NewVehicleRelease Value) :
    Prog (sql Value) AppError ReleaseRef := do
  let identity := vehicleIdentity sha req.members req.disabledMembers
  let row ← storeVehicleRelease req.tag req.version identity req.configSnapshot
  -- The identity is that of the set of members, the rows are those of the list.
  insertMembers row.id req.members req.disabledMembers
  return .fromRow row false

/-- `POST /admin/vehicle-releases`. -/
def createVehicleRelease (sha : Sha256) (req : NewVehicleRelease Value) :
    Prog (sql Value) AppError ReleaseRef := do
  match ← fetchVehicleRelease req.tag (vehicleIdentity sha req.members req.disabledMembers) with
  | some row => reuseVehicleRelease req row
  | none => cutVehicleRelease sha req

end Handlers

/-! ## What a component request does -/

theorem nulFree_toPrefixed (h : ContentHash) : NulFree h.toPrefixed :=
  ContentHash.nul_notMem_toPrefixed h

theorem nulFree_componentIdentity (sha : Sha256) (kind : String) (parts : List NewPart) :
    NulFree (componentIdentity sha kind parts) :=
  nulFree_toPrefixed _

section Component

variable {Value : Type} (storable : Value → Bool)

/-- How a request goes, as the state before it and its faults decide. -/
inductive Course where
  /-- No header row is stored and none is found. -/
  | refused
  /-- The lookup returns a row. -/
  | found (row : ComponentRelease)
  /-- The header row is stored. -/
  | stored
  deriving DecidableEq

/-- The course of a request: its first statement is the lookup, its second the header. -/
def course (sha : Sha256) (db : Db Value) (req : NewComponentRelease)
    (faults : List (Option (Fault SqlError))) : Course :=
  if Prog.faultAt faults 0 = none ∧ NulFree req.entityPath then
    match db.findComponent req.entityPath (componentIdentity sha req.entityKind req.parts) with
    | some row => .found row
    | none =>
      match Prog.faultAt faults 1 with
      -- A lost reply leaves the header behind, so it is not among the refusals.
      | some (.rejected _) => .refused
      | some (.torn _ _) => .refused
      | _ => if NulFree req.entityKind ∧ NulFree req.version then .stored else .refused
  else .refused

/-- The header row of a request that finds none. -/
def headerRow (sha : Sha256) (db : Db Value) (req : NewComponentRelease) : ComponentRelease :=
  ⟨db.componentSeq, req.entityPath, req.entityKind, req.version, db.clock 0,
    some (componentIdentity sha req.entityKind req.parts)⟩

/-- No part belongs to a release that is still to come. -/
theorem Db.part_releaseId_lt {db : Db Value} {p : ComponentReleasePart} (hp : p ∈ db.parts.rows) :
    p.releaseId < db.componentSeq := by
  obtain ⟨r, hr, hid⟩ := db.partRelease p hp
  exact hid ▸ db.componentIds r hr

/-- The state of the loop over the parts: some of them are stored behind the rows of `base`. -/
structure PartsStored (base : Db Value) (releaseId : ℤ) (done : List NewPart) (db : Db Value) :
    Prop where
  componentReleases : db.componentReleases = base.componentReleases
  parts : db.parts.rows = base.parts.rows ++ done.map (partRow releaseId)
  vehicleReleases : db.vehicleReleases = base.vehicleReleases
  members : db.members = base.members

/-- The next part can be stored: its texts are without NUL and its id is new. -/
def PartStorable (done : List NewPart) (p : NewPart) : Prop :=
  p.NulFree ∧ p.id ∉ done.map (·.id)

private theorem allGood_partStorable_iff {done parts : List NewPart} :
    Prog.AllGood PartStorable done parts ↔
      (parts.map (·.id)).Nodup ∧ (∀ p ∈ parts, p.NulFree) ∧
        ∀ p ∈ parts, p.id ∉ done.map (·.id) := by
  induction parts generalizing done with
  | nil => simp [Prog.AllGood]
  | cons p parts ih =>
    simp only [Prog.AllGood, ih, PartStorable, List.map_append, List.map_cons, List.map_nil,
      List.nodup_cons, List.forall_mem_cons, List.mem_append, List.mem_singleton, not_or]
    constructor
    · rintro ⟨⟨hnul, hnew⟩, hnodup, hnuls, hnews⟩
      refine ⟨⟨?_, hnodup⟩, ⟨hnul, hnuls⟩, hnew, fun q hq => (hnews q hq).1⟩
      intro hmem
      obtain ⟨q, hq, heq⟩ := List.mem_map.mp hmem
      exact (hnews q hq).2 heq
    · rintro ⟨⟨hfirst, hnodup⟩, ⟨hnul, hnuls⟩, hnew, hnews⟩
      refine ⟨⟨hnul, hnew⟩, hnodup, hnuls, fun q hq => ⟨hnews q hq, fun heq => ?_⟩⟩
      exact hfirst (List.mem_map.mpr ⟨q, hq, heq⟩)

/-- What storing one part does. -/
theorem PartsStored.insertPart {base db : Db Value} {releaseId : ℤ} {done : List NewPart}
    (h : PartsStored base releaseId done db)
    (hrelease : ∃ r ∈ base.componentReleases.rows, r.id = releaseId)
    (hnew : ∀ p ∈ base.parts.rows, p.releaseId ≠ releaseId) (p : NewPart) :
    (PartStorable done p → ∃ db', db.insertPart (partRow releaseId p) = (.ok (), db') ∧
      PartsStored base releaseId (done ++ [p]) db') ∧
    (¬ PartStorable done p → ∃ e, db.insertPart (partRow releaseId p) = (.error e, db)) := by
  -- The rows of this release are the parts stored so far, so the primary key asks for a new id.
  have hfree : db.parts.Free (partRow releaseId p) ↔ p.id ∉ done.map (·.id) := by
    rw [Table.free_iff_of_rows_eq h.parts fun row hrow hclash => hnew row hrow hclash.1,
      List.forall_mem_map]
    constructor
    · intro hfree hmem
      obtain ⟨q, hq, heq⟩ := List.mem_map.mp hmem
      exact hfree q hq ⟨rfl, heq⟩
    · rintro hid q hq ⟨-, hpart⟩
      exact hid (List.mem_map.mpr ⟨q, hq, hpart⟩)
  have hexists : ∃ r ∈ db.componentReleases.rows, r.id = (partRow releaseId p).releaseId := by
    rw [h.componentReleases]
    exact hrelease
  constructor
  · rintro ⟨hnul, hid⟩
    rw [Db.insertPart, dif_pos ⟨hnul, nulFree_toPrefixed _⟩, dif_pos (hfree.mpr hid),
      dif_pos hexists]
    refine ⟨_, rfl, h.componentReleases, ?_, h.vehicleReleases, h.members⟩
    simp [Db.addPart, h.parts]
  · intro hbad
    unfold Db.insertPart
    split
    · rename_i htexts
      have hid : ¬ db.parts.Free (partRow releaseId p) := fun hf =>
        hbad ⟨htexts.1, hfree.mp hf⟩
      rw [dif_neg hid]
      exact ⟨_, rfl⟩
    · exact ⟨_, rfl⟩

/-- The loop over the parts of a new release stores a prefix of them. It stores all of them iff they
have distinct ids and no NUL and every statement is executed. -/
theorem run_insertParts {base : Db Value} {releaseId : ℤ}
    (hrelease : ∃ r ∈ base.componentReleases.rows, r.id = releaseId)
    (hnew : ∀ p ∈ base.parts.rows, p.releaseId ≠ releaseId) (parts : List NewPart)
    (faults : List (Option (Fault SqlError))) :
    ∃ k ≤ parts.length,
      PartsStored base releaseId (parts.take k)
        ((insertParts releaseId parts).run (postgres storable) faults base).2.2 ∧
      (k = parts.length ↔
        ((parts.map (·.id)).Nodup ∧ ∀ p ∈ parts, p.NulFree) ∧
          Prog.AllExecuted faults parts.length) ∧
      (((insertParts releaseId parts).run (postgres storable) faults base).1 = .ok () ↔
        ((parts.map (·.id)).Nodup ∧ ∀ p ∈ parts, p.NulFree) ∧
          ∀ j < parts.length, Prog.faultAt faults j = none) := by
  have hgood : Prog.AllGood PartStorable [] parts ↔
      (parts.map (·.id)).Nodup ∧ ∀ p ∈ parts, p.NulFree := by
    simp [allGood_partStorable_iff]
  rw [← hgood]
  -- The rule for loops of one statement, with what is stored as the state of the loop.
  refine Prog.run_forEach_execute (S := sql Value) (PartsStored base releaseId) ?_ ?_ ?_ parts []
    faults ⟨rfl, by simp, rfl, rfl⟩
  · intro done p db hdb hp
    obtain ⟨db', hexec, hdb'⟩ := (hdb.insertPart hrelease hnew p).1 hp
    exact ⟨(), db', hexec, hdb'⟩
  · intro done p db hdb hp
    obtain ⟨e, hexec⟩ := (hdb.insertPart hrelease hnew p).2 hp
    exact ⟨e, db, hexec, hdb⟩
  · exact fun n done p db hdb => hdb

/-- What a course leaves behind: nothing, or the header row and the first parts of the request. A
result comes with the found row, or with a header and all parts. -/
def CourseEffect (sha : Sha256) (req : NewComponentRelease)
    (faults : List (Option (Fault SqlError))) (db : Db Value)
    (r : Except (Stop AppError) ReleaseRef) (db' : Db Value) : Course → Prop
  | .refused =>
    (∃ e, r = .error e) ∧ db'.componentReleases = db.componentReleases ∧ db'.parts = db.parts
  | .found row => r = .ok (.fromRow row.key true) ∧ db' = db
  | .stored =>
    db'.componentReleases.rows = db.componentReleases.rows ++ [headerRow sha db req] ∧
      ∃ k ≤ req.parts.length,
        db'.parts.rows = db.parts.rows ++ (req.parts.take k).map (partRow db.componentSeq) ∧
        (k = req.parts.length ↔
          ((req.parts.map (·.id)).Nodup ∧ ∀ p ∈ req.parts, p.NulFree) ∧
            Prog.AllExecuted faults.tail (req.parts.length + 1)) ∧
        ∀ ref, r = .ok ref →
          ref = .fromRow (headerRow sha db req).key false ∧ k = req.parts.length

/-- A header that the index does not refuse is stored. -/
theorem insertComponentRelease_headerRow {sha : Sha256} {db : Db Value} {req : NewComponentRelease}
    (hpath : NulFree req.entityPath) (hkind : NulFree req.entityKind)
    (hversion : NulFree req.version) (hnone : db.findComponent req.entityPath
      (componentIdentity sha req.entityKind req.parts) = none) :
    ∃ hfree, db.insertComponentRelease req.entityPath req.entityKind req.version
        (componentIdentity sha req.entityKind req.parts) =
      (.ok (headerRow sha db req).key,
        db.addComponentRelease (headerRow sha db req) rfl hfree) := by
  have hfree : db.componentReleases.Free (headerRow sha db req) :=
    Db.free_componentRelease_iff.mpr hnone
  refine ⟨hfree, ?_⟩
  rw [Db.insertComponentRelease]
  exact (if_pos ⟨hpath, hkind, hversion, nulFree_toPrefixed _⟩).trans (dif_pos hfree)

/-- The lookup answers with the row there is. -/
theorem run_fetchComponentRelease {faults : List (Option (Fault SqlError))} {path identity : String}
    (hfault : Prog.faultAt faults 0 = none) (hpath : NulFree path) (hidentity : NulFree identity)
    (db : Db Value) :
    (fetchComponentRelease path identity).run (postgres storable) faults db =
      (.ok ((db.findComponent path identity).map (·.key)), faults.tail, db) := by
  refine Prog.run_perform_of_ok (S := sql Value) ?_ dbError
  rw [hfault]
  exact Service.answer_none_of_ok (S := sql Value) (if_pos ⟨hpath, hidentity⟩)

/-- A lookup that fails changes nothing. -/
theorem run_fetchComponentRelease_of_fault {faults : List (Option (Fault SqlError))}
    {path : String} (identity : String) (hfault : ¬ (Prog.faultAt faults 0 = none ∧ NulFree path))
    (db : Db Value) :
    ∃ e, (fetchComponentRelease path identity).run (postgres storable) faults db =
      (.error e, faults.tail, db) := by
  have herror : ∃ e, (postgres storable).answer (Prog.faultAt faults 0)
      (.selectComponentRelease path identity) db = (.error e, db) := by
    cases hzero : Prog.faultAt faults 0 with
    | none =>
      have htexts : ¬ (NulFree path ∧ NulFree identity) := fun h => hfault ⟨hzero, h.1⟩
      exact ⟨_, Service.answer_none_of_error (S := sql Value) (if_neg htexts)⟩
    | some fault =>
      -- The lookup may have run, but it only reads.
      have hreads : (db.selectComponentRelease path identity).2 = db := by
        unfold Db.selectComponentRelease
        split <;> rfl
      exact Service.exists_answer_of_fault (S := sql Value) hreads (fun _ => rfl) fault
  obtain ⟨e, he⟩ := herror
  exact ⟨_, Prog.run_perform_of_error (S := sql Value) he dbError⟩

/-- A header that is stored, and whether its id is reported. -/
private theorem run_storeComponentRelease {sha : Sha256} {req : NewComponentRelease}
    {db db₁ : Db Value} (faults : List (Option (Fault SqlError)))
    (hexec : db.insertComponentRelease req.entityPath req.entityKind req.version
        (componentIdentity sha req.entityKind req.parts) = (.ok (headerRow sha db req).key, db₁)) :
    (Prog.faultAt faults 0 = none →
      (storeComponentRelease req.entityPath req.entityKind req.version
        (componentIdentity sha req.entityKind req.parts)).run (postgres storable) faults db =
          (.ok (headerRow sha db req).key, faults.tail, db₁)) ∧
    ∀ why, Prog.faultAt faults 0 = some (.lost why) →
      (storeComponentRelease req.entityPath req.entityKind req.version
        (componentIdentity sha req.entityKind req.parts)).run (postgres storable) faults db =
          (.error (why.map dbError), faults.tail, db₁) := by
  constructor
  · intro hnone
    refine Prog.run_perform_of_ok (S := sql Value) ?_ dbError
    rw [hnone]
    exact Service.answer_none_of_ok (S := sql Value) hexec
  · intro why hlost
    refine Prog.run_perform_of_error (S := sql Value) ?_ dbError
    rw [hlost]
    exact Service.answer_lost (S := sql Value) hexec why

/-- A header that is not stored leaves the tables as they are. -/
private theorem run_storeComponentRelease_of_refused (req : NewComponentRelease) (identity : String)
    (db : Db Value) {faults : List (Option (Fault SqlError))}
    (hrefused : (∃ why, Prog.faultAt faults 0 = some (.rejected why)) ∨
      (∃ n why, Prog.faultAt faults 0 = some (.torn n why)) ∨
      ¬ (NulFree req.entityKind ∧ NulFree req.version)) :
    ∃ e, (storeComponentRelease req.entityPath req.entityKind req.version identity).run
      (postgres storable) faults db = (.error e, faults.tail, db) := by
  have herror : ∃ e, (postgres storable).answer (Prog.faultAt faults 0)
      (.insertComponentRelease req.entityPath req.entityKind req.version identity) db =
        (.error e, db) := by
    rcases hrefused with ⟨why, hfault⟩ | ⟨n, why, hfault⟩ | htexts
    · exact ⟨why, by rw [hfault]; rfl⟩
    · exact ⟨why, by rw [hfault]; rfl⟩
    · have hexec : db.insertComponentRelease req.entityPath req.entityKind req.version identity =
          (.error .invalidInput, db) := if_neg fun h => htexts ⟨h.2.1, h.2.2.1⟩
      cases Prog.faultAt faults 0 with
      | none => exact ⟨_, Service.answer_none_of_error (S := sql Value) hexec⟩
      | some fault =>
        have hkept : (db.insertComponentRelease req.entityPath req.entityKind req.version
            identity).2 = db := by rw [hexec]
        exact Service.exists_answer_of_fault (S := sql Value) hkept (fun _ => rfl) fault
  obtain ⟨e, he⟩ := herror
  exact ⟨_, Prog.run_perform_of_error (S := sql Value) he dbError⟩

/-- A header row that is stored, and the loop over the parts behind it. -/
private theorem run_cutComponentRelease_stored {sha : Sha256} {req : NewComponentRelease}
    {faults : List (Option (Fault SqlError))} {db : Db Value} (hpath : NulFree req.entityPath)
    (htexts : NulFree req.entityKind ∧ NulFree req.version)
    (hnone : db.findComponent req.entityPath
      (componentIdentity sha req.entityKind req.parts) = none)
    (hfault : Prog.faultAt faults 1 = none ∨ ∃ why, Prog.faultAt faults 1 = some (.lost why)) :
    let o := (cutComponentRelease sha req).run (postgres storable) faults.tail db
    (o.2.2.vehicleReleases = db.vehicleReleases ∧ o.2.2.members = db.members) ∧
      CourseEffect sha req faults db o.1 o.2.2 .stored := by
  intro o
  obtain ⟨hfree, hexec⟩ := insertComponentRelease_headerRow hpath htexts.1 htexts.2 hnone
  obtain ⟨hok, hlost⟩ := run_storeComponentRelease storable faults.tail hexec
  rw [← Prog.faultAt_succ] at hok hlost
  have hall : ∀ {n : ℕ}, Prog.AllExecuted faults.tail (n + 1) ↔
      (Prog.faultAt faults 1 = none ∧ Prog.AllExecuted faults.tail.tail n) ∨
        (n = 0 ∧ ∃ why, Prog.faultAt faults 1 = some (.lost why)) := by
    intro n
    rw [Prog.allExecuted_succ_iff, ← Prog.faultAt_succ]
  rcases hfault with hnofault | ⟨why, hreply⟩
  -- Either the header is stored and its id is known, or it is stored and the request ends without
  -- having tried any part.
  · let db₁ := db.addComponentRelease (headerRow sha db req) rfl hfree
    have hheader : ∃ r ∈ db₁.componentReleases.rows, r.id = (headerRow sha db req).key.id :=
      ⟨headerRow sha db req, by simp [db₁, Db.addComponentRelease], rfl⟩
    have hnew : ∀ p ∈ db₁.parts.rows, p.releaseId ≠ (headerRow sha db req).key.id :=
      fun p hp => (Db.part_releaseId_lt hp : p.releaseId < db.componentSeq).ne
    -- The id of the header is new, so no part row belongs to it yet.
    obtain ⟨k, hk, hstored, hstoredAll, hresult⟩ :=
      run_insertParts storable hheader hnew req.parts faults.tail.tail
    have ho : o = Prog.run (postgres storable) _ faults.tail.tail db₁ :=
      Prog.run_bind_of_ok (hok hnofault) _
    -- The faults of the whole request are those of the header and of the loop.
    have hkall : k = req.parts.length ↔ ((req.parts.map (·.id)).Nodup ∧
        ∀ p ∈ req.parts, p.NulFree) ∧ Prog.AllExecuted faults.tail (req.parts.length + 1) := by
      rw [hstoredAll, hall, hnofault]
      simp
    have hheaders : ∀ db', PartsStored db₁ (headerRow sha db req).key.id (req.parts.take k) db' →
        db'.componentReleases.rows = db.componentReleases.rows ++ [headerRow sha db req] := by
      intro db' hdb'
      rw [hdb'.componentReleases]
      rfl
    rcases hrun : (insertParts (headerRow sha db req).key.id req.parts).run (postgres storable)
        faults.tail.tail db₁ with ⟨e | _, faults', db'⟩ <;> rw [hrun] at hstored hresult
    · have ho : o = (.error e, faults', db') := ho.trans (Prog.run_bind_of_error hrun _)
      rw [ho]
      exact ⟨⟨hstored.vehicleReleases, hstored.members⟩, hheaders _ hstored, k, hk, hstored.parts,
        hkall, by simp⟩
    · have ho : o = (.ok (.fromRow (headerRow sha db req).key false), faults', db') :=
        ho.trans (Prog.run_bind_of_ok hrun _)
      rw [ho]
      refine ⟨⟨hstored.vehicleReleases, hstored.members⟩, hheaders _ hstored, k, hk, hstored.parts,
        hkall, ?_⟩
      rintro ref ⟨⟩
      obtain ⟨hparts, hnofaults⟩ := hresult.mp rfl
      exact ⟨rfl, hstoredAll.mpr ⟨hparts, fun j hj => .inl (hnofaults j hj)⟩⟩
  · have ho : o = _ := Prog.run_bind_of_error (hlost why hreply) _
    rw [ho]
    refine ⟨⟨rfl, rfl⟩, rfl, 0, Nat.zero_le _,
      by simp [Db.addComponentRelease, Db.advanceComponents], ?_, by simp⟩
    rw [hall, hreply]
    constructor
    · intro hzero
      -- Nothing of the parts is stored: that is all of them only if there are none.
      have hnil : req.parts = [] := List.length_eq_zero_iff.mp hzero.symm
      simp [hnil]
    · rintro ⟨-, ⟨hno, -⟩ | ⟨hzero, -⟩⟩
      · cases hno
      · exact hzero.symm

/-- What follows a lookup that finds nothing. -/
private theorem run_cutComponentRelease {sha : Sha256} {req : NewComponentRelease}
    {faults : List (Option (Fault SqlError))} {db : Db Value}
    (hselect : Prog.faultAt faults 0 = none ∧ NulFree req.entityPath)
    (hnone : db.findComponent req.entityPath
      (componentIdentity sha req.entityKind req.parts) = none) :
    let o := (cutComponentRelease sha req).run (postgres storable) faults.tail db
    (o.2.2.vehicleReleases = db.vehicleReleases ∧ o.2.2.members = db.members) ∧
      CourseEffect sha req faults db o.1 o.2.2 (course sha db req faults) := by
  intro o
  have hone : Prog.faultAt faults.tail 0 = Prog.faultAt faults 1 :=
    (Prog.faultAt_succ faults 0).symm
  -- Every cause of a refusal ends in the same state, the one before.
  have hrefused : course sha db req faults = .refused →
      ((∃ why, Prog.faultAt faults 1 = some (.rejected why)) ∨
        (∃ n why, Prog.faultAt faults 1 = some (.torn n why)) ∨
        ¬ (NulFree req.entityKind ∧ NulFree req.version)) →
      (o.2.2.vehicleReleases = db.vehicleReleases ∧ o.2.2.members = db.members) ∧
        CourseEffect sha req faults db o.1 o.2.2 (course sha db req faults) := by
    intro hcourse hwhy
    rw [← hone] at hwhy
    obtain ⟨e, hstore⟩ := run_storeComponentRelease_of_refused storable req
      (componentIdentity sha req.entityKind req.parts) db hwhy
    have ho : o = (.error e, faults.tail.tail, db) := Prog.run_bind_of_error hstore _
    rw [hcourse, ho]
    exact ⟨⟨rfl, rfl⟩, ⟨e, rfl⟩, rfl, rfl⟩
  by_cases htexts : NulFree req.entityKind ∧ NulFree req.version
  · have hstored : course sha db req faults = .stored →
        (Prog.faultAt faults 1 = none ∨ ∃ why, Prog.faultAt faults 1 = some (.lost why)) →
        (o.2.2.vehicleReleases = db.vehicleReleases ∧ o.2.2.members = db.members) ∧
          CourseEffect sha req faults db o.1 o.2.2 (course sha db req faults) := by
      intro hcourse hfault
      rw [hcourse]
      exact run_cutComponentRelease_stored storable hselect.2 htexts hnone hfault
    cases hfault : Prog.faultAt faults 1 with
    | none => exact hstored (by simp [course, hselect, hnone, hfault, htexts]) (.inl hfault)
    | some fault =>
      cases fault with
      | rejected why =>
        exact hrefused (by simp [course, hselect, hnone, hfault]) (.inl ⟨why, hfault⟩)
      | lost why =>
        exact hstored (by simp [course, hselect, hnone, hfault, htexts]) (.inr ⟨why, hfault⟩)
      | torn n why =>
        exact hrefused (by simp [course, hselect, hnone, hfault]) (.inr (.inl ⟨n, why, hfault⟩))
  · refine hrefused ?_ (.inr (.inr htexts))
    simp only [course, hselect, and_self, ↓reduceIte, hnone, htexts]
    split <;> rfl

/-- All that a component request can do. -/
theorem run_createComponentRelease (sha : Sha256) (req : NewComponentRelease)
    (faults : List (Option (Fault SqlError))) (db : Db Value) :
    let o := (createComponentRelease sha req).run (postgres storable) faults db
    (o.2.2.vehicleReleases = db.vehicleReleases ∧ o.2.2.members = db.members) ∧
      CourseEffect sha req faults db o.1 o.2.2 (course sha db req faults) := by
  intro o
  -- The lookup comes first: it fails, or it decides between reuse and a new release.
  by_cases hselect : Prog.faultAt faults 0 = none ∧ NulFree req.entityPath
  · have hfetch := run_fetchComponentRelease storable hselect.1 hselect.2
      (nulFree_componentIdentity sha req.entityKind req.parts) db
    cases hfind : db.findComponent req.entityPath
        (componentIdentity sha req.entityKind req.parts) with
    | some row =>
      have hcourse : course sha db req faults = .found row := by simp [course, hselect, hfind]
      rw [hfind] at hfetch
      have ho : o = (.ok (.fromRow row.key true), faults.tail, db) := Prog.run_bind_of_ok hfetch _
      rw [hcourse, ho]
      exact ⟨⟨rfl, rfl⟩, rfl, rfl⟩
    | none =>
      rw [hfind] at hfetch
      have ho : o = (cutComponentRelease sha req).run (postgres storable) faults.tail db :=
        Prog.run_bind_of_ok hfetch _
      rw [ho]
      exact run_cutComponentRelease storable hselect hfind
  · obtain ⟨e, hfetch⟩ := run_fetchComponentRelease_of_fault storable
      (componentIdentity sha req.entityKind req.parts) hselect db
    have hcourse : course sha db req faults = .refused := if_neg hselect
    have ho : o = (.error e, faults.tail, db) := Prog.run_bind_of_error hfetch _
    rw [hcourse, ho]
    exact ⟨⟨rfl, rfl⟩, ⟨e, rfl⟩, rfl, rfl⟩

end Component

end SoftwareTower
