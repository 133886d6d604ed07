import SumoProvision.SoftwareTower.Releases

/-!
# The members of stored vehicle releases

A vehicle release is identified by the set of its members and of the disabled ones among them, and
reused by that identity. The members are stored one by one from the list as it was sent, so a
repeated id or an id without a release ends the request half-way, and the header that remains is
reused by every later request for the same set.

`members_exact_iff` says exactly which requests leave a vehicle release with the members it was
asked for, in every sequence of component and vehicle requests.
-/

namespace SoftwareTower

open Wire

variable {Value : Type}

/-! ## Definitions -/

/-- A request of either kind. -/
inductive Request (Value : Type) where
  | component (req : NewComponentRelease)
  | vehicle (req : NewVehicleRelease Value)

/-- The response to a vehicle request. -/
def respondVehicle (storable : Value → Bool) (sha : Sha256) (db : Db Value)
    (req : NewVehicleRelease Value) : Except (Stop AppError) ReleaseRef :=
  ((createVehicleRelease sha req).run (postgres storable) [] db).1

/-- The database after a request. -/
def next (storable : Value → Bool) (sha : Sha256) (db : Db Value) : Request Value → Db Value
  | .component req => ((createComponentRelease sha req).run (postgres storable) [] db).2.2
  | .vehicle req => ((createVehicleRelease sha req).run (postgres storable) [] db).2.2

/-- The members stored for a release are the given ids, disabled as given. -/
def StoredMembers (db : Db Value) (vehicleReleaseId : ℤ) (members disabledMembers : List ℤ) :
    Prop :=
  ∀ m flag, ⟨vehicleReleaseId, m, flag⟩ ∈ db.members.rows ↔
    m ∈ members ∧ flag = disabledMembers.contains m

/-- The request fails and leaves both vehicle tables unchanged, or returns a release with exactly
the requested members. -/
def MembersExact (storable : Value → Bool) (sha : Sha256) (db : Db Value)
    (req : NewVehicleRelease Value) : Prop :=
  match respondVehicle storable sha db req with
  | .error _ =>
    (next storable sha db (.vehicle req)).vehicleReleases = db.vehicleReleases ∧
      (next storable sha db (.vehicle req)).members = db.members
  | .ok ref =>
    StoredMembers (next storable sha db (.vehicle req)) ref.id req.members req.disabledMembers

/-- A request that stores a header names distinct component releases that exist. -/
def MembersStorable (storable : Value → Bool) (sha : Sha256) (db : Db Value)
    (req : NewVehicleRelease Value) : Prop :=
  NulFree req.tag →
    db.findVehicle req.tag (vehicleIdentity sha req.members req.disabledMembers) = none →
      NulFree req.version ∧ req.configSnapshot.all storable = true →
        req.members.Nodup ∧ ∀ m ∈ req.members, ∃ r ∈ db.componentReleases.rows, r.id = m

/-- Every identity hash of a vehicle release is the identity of its stored members. -/
def MemberInvariant (sha : Sha256) (db : Db Value) : Prop :=
  ∀ row ∈ db.vehicleReleases.rows, ∀ h, row.identityHash = some h →
    ∃ members disabled, h = vehicleIdentity sha members disabled ∧
      StoredMembers db row.id members disabled

/-! ## The loop over the members -/

/-- The state of the loop over the members: some of them are stored behind the rows of `base`. -/
structure MembersStored (base : Db Value) (vehicleReleaseId : ℤ) (disabledMembers done : List ℤ)
    (db : Db Value) : Prop where
  componentReleases : db.componentReleases = base.componentReleases
  vehicleReleases : db.vehicleReleases = base.vehicleReleases
  members : db.members.rows =
    base.members.rows ++ done.map (memberRow vehicleReleaseId disabledMembers)

/-- The next member can be stored: it is new and its component release exists. -/
def MemberStorable (base : Db Value) (done : List ℤ) (m : ℤ) : Prop :=
  m ∉ done ∧ ∃ r ∈ base.componentReleases.rows, r.id = m

private theorem allGood_memberStorable_iff {base : Db Value} {done members : List ℤ} :
    Prog.AllGood (MemberStorable base) done members ↔
      members.Nodup ∧ (∀ m ∈ members, ∃ r ∈ base.componentReleases.rows, r.id = m) ∧
        ∀ m ∈ members, m ∉ done := by
  induction members generalizing done with
  | nil => simp [Prog.AllGood]
  | cons m members ih =>
    simp only [Prog.AllGood, ih, MemberStorable, List.nodup_cons, List.forall_mem_cons,
      List.mem_append, List.mem_singleton, not_or]
    constructor
    · rintro ⟨⟨hnew, hexists⟩, hnodup, hall, hnews⟩
      exact ⟨⟨fun hm => (hnews m hm).2 rfl, hnodup⟩, ⟨hexists, hall⟩, hnew,
        fun q hq => (hnews q hq).1⟩
    · rintro ⟨⟨hfirst, hnodup⟩, ⟨hexists, hall⟩, hnew, hnews⟩
      exact ⟨⟨hnew, hexists⟩, hnodup, hall, fun q hq => ⟨hnews q hq, fun heq => hfirst (heq ▸ hq)⟩⟩

/-- What storing one member does. -/
theorem MembersStored.insertMember {base db : Db Value} {vehicleReleaseId : ℤ}
    {disabledMembers done : List ℤ}
    (h : MembersStored base vehicleReleaseId disabledMembers done db)
    (hvehicle : ∃ r ∈ base.vehicleReleases.rows, r.id = vehicleReleaseId)
    (hnew : ∀ row ∈ base.members.rows, row.vehicleReleaseId ≠ vehicleReleaseId) (m : ℤ) :
    (MemberStorable base done m →
      ∃ db', db.insertMember (memberRow vehicleReleaseId disabledMembers m) = (.ok (), db') ∧
        MembersStored base vehicleReleaseId disabledMembers (done ++ [m]) db') ∧
    (¬ MemberStorable base done m →
      ∃ e, db.insertMember (memberRow vehicleReleaseId disabledMembers m) = (.error e, db)) := by
  -- The rows of this release are the members stored so far, so the primary key asks for a new id.
  have hfree : db.members.Free (memberRow vehicleReleaseId disabledMembers m) ↔ m ∉ done := by
    rw [Table.free_iff_of_rows_eq h.members fun row hrow hclash => hnew row hrow hclash.1,
      List.forall_mem_map]
    constructor
    · exact fun hfree hmem => hfree m hmem ⟨rfl, rfl⟩
    · rintro hid q hq ⟨-, hmember⟩
      obtain rfl : q = m := hmember
      exact hid hq
  have hvehicle' : ∃ r ∈ db.vehicleReleases.rows,
      r.id = (memberRow vehicleReleaseId disabledMembers m).vehicleReleaseId := by
    rw [h.vehicleReleases]
    exact hvehicle
  have hcomponent : (∃ r ∈ db.componentReleases.rows,
      r.id = (memberRow vehicleReleaseId disabledMembers m).componentReleaseId) ↔
      ∃ r ∈ base.componentReleases.rows, r.id = m := by
    rw [h.componentReleases]
    rfl
  constructor
  · rintro ⟨hid, hexists⟩
    rw [Db.insertMember, dif_pos (hfree.mpr hid), dif_pos hvehicle',
      dif_pos (hcomponent.mpr hexists)]
    refine ⟨_, rfl, h.componentReleases, h.vehicleReleases, ?_⟩
    simp [Db.addMember, h.members]
  · intro hbad
    unfold Db.insertMember
    split
    · rename_i hf
      -- The id is new and the vehicle release exists, so it is the component release that is
      -- missing.
      have hmissing := fun hexists => hbad ⟨hfree.mp hf, hcomponent.mp hexists⟩
      rw [dif_neg hmissing]
      exact ⟨_, rfl⟩
    · exact ⟨_, rfl⟩

/-- The loop over the members of a new release stores a prefix of them. It stores all of them iff
they are distinct and exist and every statement is executed. -/
theorem run_insertMembers (storable : Value → Bool) {base : Db Value} {vehicleReleaseId : ℤ}
    (hvehicle : ∃ r ∈ base.vehicleReleases.rows, r.id = vehicleReleaseId)
    (hnew : ∀ row ∈ base.members.rows, row.vehicleReleaseId ≠ vehicleReleaseId)
    (members disabledMembers : List ℤ) (faults : List (Option (Fault SqlError))) :
    let o := (insertMembers vehicleReleaseId members disabledMembers).run (postgres storable) faults
      base
    ∃ k ≤ members.length,
      MembersStored base vehicleReleaseId disabledMembers (members.take k) o.2.2 ∧
      (k = members.length ↔
        (members.Nodup ∧ ∀ m ∈ members, ∃ r ∈ base.componentReleases.rows, r.id = m) ∧
          Prog.AllExecuted faults members.length) ∧
      (o.1 = .ok () ↔
        (members.Nodup ∧ ∀ m ∈ members, ∃ r ∈ base.componentReleases.rows, r.id = m) ∧
          ∀ j < members.length, Prog.faultAt faults j = none) := by
  have hgood : Prog.AllGood (MemberStorable base) [] members ↔
      members.Nodup ∧ ∀ m ∈ members, ∃ r ∈ base.componentReleases.rows, r.id = m := by
    simp [allGood_memberStorable_iff]
  -- The rule for a loop of statements: its invariant is which members are stored so far.
  rw [← hgood]
  refine Prog.run_forEach_execute (S := sql Value)
    (MembersStored base vehicleReleaseId disabledMembers) ?_ ?_ ?_ members [] faults
    ⟨rfl, rfl, by simp⟩
  · intro done m db hdb hm
    obtain ⟨db', hexec, hdb'⟩ := (hdb.insertMember hvehicle hnew m).1 hm
    exact ⟨(), db', hexec, hdb'⟩
  · intro done m db hdb hm
    obtain ⟨e, hexec⟩ := (hdb.insertMember hvehicle hnew m).2 hm
    exact ⟨e, db, hexec, hdb⟩
  · exact fun n done m db hdb => hdb

/-! ## One request -/

/-- No member belongs to a release that is still to come. -/
theorem Db.member_vehicleReleaseId_lt {db : Db Value} {row : VehicleReleaseMember}
    (hrow : row ∈ db.members.rows) : row.vehicleReleaseId < db.vehicleSeq := by
  obtain ⟨r, hr, hid⟩ := db.memberVehicle row hrow
  exact hid ▸ db.vehicleIds r hr

/-- The header row of a request that finds none. -/
def vehicleHeader (sha : Sha256) (db : Db Value) (req : NewVehicleRelease Value) :
    VehicleRelease Value :=
  ⟨db.vehicleSeq, req.tag, req.version, db.clock 0,
    some (vehicleIdentity sha req.members req.disabledMembers), req.configSnapshot⟩

/-- A lookup by a tag that no column can hold fails. -/
theorem run_createVehicleRelease_of_nul (storable : Value → Bool) (sha : Sha256)
    {req : NewVehicleRelease Value} (htag : ¬ NulFree req.tag) (db : Db Value) :
    ∃ e, (createVehicleRelease sha req).run (postgres storable) [] db = (.error e, [], db) := by
  have hexec : db.selectVehicleRelease req.tag
      (vehicleIdentity sha req.members req.disabledMembers) = (.error .invalidInput, db) :=
    if_neg fun h => htag h.1
  exact ⟨_, Prog.run_bind_of_error (Prog.run_perform_of_error (S := sql Value)
    (Service.answer_none_of_error (S := sql Value) hexec) dbError) _⟩

/-- A lookup answers with the row there is, which is reused, or a new release is cut. -/
theorem run_createVehicleRelease_of_fetch (storable : Value → Bool) (sha : Sha256)
    {req : NewVehicleRelease Value} (htag : NulFree req.tag) (db : Db Value) :
    (createVehicleRelease sha req).run (postgres storable) [] db =
      match db.findVehicle req.tag (vehicleIdentity sha req.members req.disabledMembers) with
      | some row => (reuseVehicleRelease req row.key).run (postgres storable) [] db
      | none => (cutVehicleRelease sha req).run (postgres storable) [] db := by
  have hexec : db.selectVehicleRelease req.tag
      (vehicleIdentity sha req.members req.disabledMembers) =
      (.ok ((db.findVehicle req.tag
        (vehicleIdentity sha req.members req.disabledMembers)).map (·.key)), db) :=
    if_pos ⟨htag, nulFree_toPrefixed _⟩
  have hfetch : (fetchVehicleRelease req.tag
      (vehicleIdentity sha req.members req.disabledMembers)).run (postgres storable) [] db = _ :=
    Prog.run_perform_of_ok (S := sql Value) (Service.answer_none_of_ok (S := sql Value) hexec)
      dbError
  rw [createVehicleRelease, Prog.run_bind_of_ok hfetch]
  -- The row that is found goes on as its key.
  cases db.findVehicle req.tag (vehicleIdentity sha req.members req.disabledMembers) <;> rfl

/-- A release that is found is returned, and of the vehicle tables at most its configuration
snapshot changes; if the snapshot is refused, nothing does. -/
theorem run_reuseVehicleRelease (storable : Value → Bool) (req : NewVehicleRelease Value)
    (row : ReleaseKey) (db : Db Value) :
    (∃ db', (reuseVehicleRelease req row).run (postgres storable) [] db =
        (.ok (.fromRow row true), [], db') ∧ db'.members = db.members ∧
        ∃ f : VehicleRelease Value → VehicleRelease Value,
          (∀ r, (f r).id = r.id ∧ (f r).identityHash = r.identityHash) ∧
          db'.vehicleReleases.rows = db.vehicleReleases.rows.map f) ∨
      ∃ e, (reuseVehicleRelease req row).run (postgres storable) [] db = (.error e, [], db) := by
  rw [reuseVehicleRelease]
  by_cases hsome : req.configSnapshot.isSome
  · rw [if_pos hsome]
    by_cases hstorable : req.configSnapshot.all storable = true
    · have hexec : db.updateConfigSnapshot storable row.id req.configSnapshot =
          (.ok (), db.fillSnapshot row.id req.configSnapshot) := if_pos hstorable
      refine .inl ⟨db.fillSnapshot row.id req.configSnapshot,
        Prog.run_bind_of_ok (Prog.run_execute_of_ok (S := sql Value)
          (Service.answer_none_of_ok (S := sql Value) hexec) dbError) _, rfl,
        Db.coalesceSnapshot row.id req.configSnapshot, fun r => by simp, rfl⟩
    · have hexec : db.updateConfigSnapshot storable row.id req.configSnapshot =
          (.error .invalidInput, db) := if_neg hstorable
      exact .inr ⟨_, Prog.run_bind_of_error (Prog.run_execute_of_error (S := sql Value)
        (Service.answer_none_of_error (S := sql Value) hexec) dbError) _⟩
  · rw [if_neg hsome]
    exact .inl ⟨db, rfl, rfl, id, by simp, by simp⟩

/-- A request that finds no release and cannot store its header changes nothing. -/
theorem run_cutVehicleRelease_of_refused (storable : Value → Bool) (sha : Sha256)
    {req : NewVehicleRelease Value} {db : Db Value}
    (hrefused : ¬ (NulFree req.version ∧ req.configSnapshot.all storable = true)) :
    ∃ e, (cutVehicleRelease sha req).run (postgres storable) [] db = (.error e, [], db) := by
  have hexec : db.insertVehicleRelease storable req.tag req.version
      (vehicleIdentity sha req.members req.disabledMembers) req.configSnapshot =
      (.error .invalidInput, db) := if_neg fun h => hrefused ⟨h.2.1, h.2.2.2⟩
  exact ⟨_, Prog.run_bind_of_error (Prog.run_perform_of_error (S := sql Value)
    (Service.answer_none_of_error (S := sql Value) hexec) dbError) _⟩

/-- A request that finds no release and stores its header succeeds iff its members are distinct and
exist, and then stores all of them. -/
theorem run_cutVehicleRelease (storable : Value → Bool) {sha : Sha256}
    {req : NewVehicleRelease Value} {db : Db Value} (htag : NulFree req.tag)
    (hnone : db.findVehicle req.tag (vehicleIdentity sha req.members req.disabledMembers) = none)
    (hstorable : NulFree req.version ∧ req.configSnapshot.all storable = true) :
    let o := (cutVehicleRelease sha req).run (postgres storable) [] db
    let good := req.members.Nodup ∧ ∀ m ∈ req.members, ∃ r ∈ db.componentReleases.rows, r.id = m
    (o.2.2.componentReleases = db.componentReleases ∧
        o.2.2.vehicleReleases.rows = db.vehicleReleases.rows ++ [vehicleHeader sha db req]) ∧
      (good → o.1 = .ok (.fromRow (vehicleHeader sha db req).key false) ∧
        o.2.2.members.rows = db.members.rows ++
          req.members.map (memberRow db.vehicleSeq req.disabledMembers)) ∧
      (¬ good → ∃ e, o.1 = .error e) := by
  intro o good
  have hfree : db.vehicleReleases.Free (vehicleHeader sha db req) :=
    Db.free_vehicleRelease_iff.mpr hnone
  let db₁ := db.addVehicleRelease (vehicleHeader sha db req) rfl hfree
  have hexec : db.insertVehicleRelease storable req.tag req.version
      (vehicleIdentity sha req.members req.disabledMembers) req.configSnapshot =
      (.ok (vehicleHeader sha db req).key, db₁) :=
    (if_pos ⟨htag, hstorable.1, nulFree_toPrefixed _, hstorable.2⟩).trans (dif_pos hfree)
  have hstore : (storeVehicleRelease req.tag req.version
      (vehicleIdentity sha req.members req.disabledMembers) req.configSnapshot).run
      (postgres storable) [] db = (.ok (vehicleHeader sha db req).key, [], db₁) :=
    Prog.run_perform_of_ok (S := sql Value) (Service.answer_none_of_ok (S := sql Value) hexec)
      dbError
  have ho : o = Prog.run (postgres storable) _ [] db₁ := Prog.run_bind_of_ok hstore _
  have hheader : ∃ r ∈ db₁.vehicleReleases.rows, r.id = (vehicleHeader sha db req).key.id :=
    ⟨vehicleHeader sha db req, by simp [db₁, Db.addVehicleRelease], rfl⟩
  -- The id of the header is new, so the loop starts without members of this release.
  have hnew : ∀ row ∈ db₁.members.rows,
      row.vehicleReleaseId ≠ (vehicleHeader sha db req).key.id := fun row hrow =>
    (Db.member_vehicleReleaseId_lt hrow : row.vehicleReleaseId < db.vehicleSeq).ne
  obtain ⟨k, -, hstored, hall, hok⟩ :=
    run_insertMembers storable hheader hnew req.members req.disabledMembers []
  have hgood : good ↔ req.members.Nodup ∧
      ∀ m ∈ req.members, ∃ r ∈ db₁.componentReleases.rows, r.id = m := Iff.rfl
  -- Without faults the loop ends well iff every member can be stored.
  simp only [← hgood, Prog.faultAt_nil, implies_true, and_true] at hall hok
  rcases hrun : (insertMembers (vehicleHeader sha db req).key.id req.members
      req.disabledMembers).run (postgres storable) [] db₁ with ⟨e | _, faults', db'⟩ <;>
    rw [hrun] at hstored hok
  · have ho : o = (.error e, faults', db') := ho.trans (Prog.run_bind_of_error hrun _)
    rw [ho]
    refine ⟨⟨hstored.componentReleases, ?_⟩, fun h => absurd (hok.mpr h) (by simp),
      fun _ => ⟨e, rfl⟩⟩
    rw [hstored.vehicleReleases]
    rfl
  · have ho : o = (.ok (.fromRow (vehicleHeader sha db req).key false), faults', db') :=
      ho.trans (Prog.run_bind_of_ok hrun _)
    have hg : good := hok.mp rfl
    have hk : k = req.members.length := hall.mpr ⟨hg, fun j _ => .inl rfl⟩
    rw [ho]
    refine ⟨⟨hstored.componentReleases, ?_⟩, fun _ => ⟨rfl, ?_⟩, fun h => absurd hg h⟩
    · rw [hstored.vehicleReleases]
      rfl
    · rw [hstored.members, hk, List.take_length]
      rfl

/-- What is stored for a release that had no members. -/
theorem storedMembers_of_append {db db' : Db Value} {newId : ℤ} {members disabled : List ℤ}
    (hrows : db'.members.rows = db.members.rows ++ members.map (memberRow newId disabled))
    (hnone : ∀ row ∈ db.members.rows, row.vehicleReleaseId ≠ newId) :
    StoredMembers db' newId members disabled := by
  intro m flag
  rw [hrows, List.mem_append]
  constructor
  · rintro (hold | hnew)
    · exact absurd rfl (hnone _ hold)
    · obtain ⟨m', hm', heq⟩ := List.mem_map.mp hnew
      obtain ⟨-, rfl, rfl⟩ := VehicleReleaseMember.mk.inj heq
      exact ⟨hm', rfl⟩
  · rintro ⟨hm, rfl⟩
    exact .inr (List.mem_map.mpr ⟨m, hm, rfl⟩)

/-- What is stored for the other releases does not change. -/
theorem StoredMembers.append {db db' : Db Value} {id newId : ℤ}
    {members disabled new newDisabled : List ℤ} (h : StoredMembers db id members disabled)
    (hrows : db'.members.rows = db.members.rows ++ new.map (memberRow newId newDisabled))
    (hne : id ≠ newId) : StoredMembers db' id members disabled := by
  intro m flag
  rw [hrows, List.mem_append, ← h m flag]
  refine or_iff_left fun hnew => ?_
  obtain ⟨m', -, heq⟩ := List.mem_map.mp hnew
  exact hne (VehicleReleaseMember.mk.inj heq).1.symm

/-- A release with the requested identity has the requested members. -/
theorem storedMembers_of_findVehicle {sha : Sha256} {db : Db Value} {req : NewVehicleRelease Value}
    {row : VehicleRelease Value} (hinv : MemberInvariant sha db)
    (hsha : CollisionFreeAt sha (vehicleText req.members req.disabledMembers).toByteArray)
    (hfind : db.findVehicle req.tag (vehicleIdentity sha req.members req.disabledMembers) =
      some row) :
    StoredMembers db row.id req.members req.disabledMembers := by
  obtain ⟨hrow, -, hidentity⟩ := Db.findVehicle_eq_some_iff.mp hfind
  obtain ⟨members, disabled, hhash, hstored⟩ := hinv row hrow _ hidentity
  -- Equal hashes mean equal texts, and the text says which members and which of them are disabled.
  obtain ⟨hmembers, hdisabled⟩ := vehicleText_inj (eq_of_hashText_eq hsha hhash.symm)
  intro m flag
  rw [hstored m flag, hmembers m]
  refine and_congr_right fun hm => ?_
  have hflag : disabled.contains m = req.disabledMembers.contains m := by
    rw [Bool.eq_iff_iff, List.contains_iff_mem, List.contains_iff_mem]
    exact hdisabled m ((hmembers m).mpr hm)
  rw [hflag]

/-- A request that fails without effect is exact and keeps the invariant. -/
private theorem membersExact_of_run_error {storable : Value → Bool} {sha : Sha256} {db : Db Value}
    {req : NewVehicleRelease Value} {e : Stop AppError} (hinv : MemberInvariant sha db)
    (h : (createVehicleRelease sha req).run (postgres storable) [] db = (.error e, [], db)) :
    MembersExact storable sha db req ∧
      MemberInvariant sha (next storable sha db (.vehicle req)) := by
  have hrespond : respondVehicle storable sha db req = .error e := congrArg (·.1) h
  have hnext : next storable sha db (.vehicle req) = db := congrArg (·.2.2) h
  rw [MembersExact, hrespond, hnext]
  exact ⟨⟨rfl, rfl⟩, hinv⟩

/-- A request that finds a release is exact and keeps the invariant. -/
private theorem membersExact_of_found (storable : Value → Bool) {sha : Sha256} {db : Db Value}
    {req : NewVehicleRelease Value} {row : VehicleRelease Value} (hinv : MemberInvariant sha db)
    (hsha : CollisionFreeAt sha (vehicleText req.members req.disabledMembers).toByteArray)
    (htag : NulFree req.tag)
    (hfind : db.findVehicle req.tag (vehicleIdentity sha req.members req.disabledMembers) =
      some row) :
    MembersExact storable sha db req ∧
      MemberInvariant sha (next storable sha db (.vehicle req)) := by
  have hrun := run_createVehicleRelease_of_fetch storable sha htag db
  rw [hfind] at hrun
  rcases run_reuseVehicleRelease storable req row.key db with
    ⟨db', hreuse, hmembers, f, hf, hrows⟩ | ⟨e, hreuse⟩
  · replace hrun := hrun.trans hreuse
    simp only [MembersExact, respondVehicle, next, hrun]
    constructor
    · have hstored := storedMembers_of_findVehicle hinv hsha hfind
      rw [StoredMembers, ← hmembers] at hstored
      exact hstored
    · intro r hr h hidentity
      -- The snapshot is no part of the identity, and no member row changes.
      rw [hrows] at hr
      obtain ⟨old, hold, rfl⟩ := List.mem_map.mp hr
      rw [(hf old).2] at hidentity
      simpa only [StoredMembers, hmembers, (hf old).1] using hinv old hold h hidentity
  · exact membersExact_of_run_error hinv (hrun.trans hreuse)

/-- A request that stores its header is exact iff its members are distinct and exist. -/
private theorem membersExact_of_stored (storable : Value → Bool) {sha : Sha256} {db : Db Value}
    {req : NewVehicleRelease Value} (hinv : MemberInvariant sha db) (htag : NulFree req.tag)
    (hnone : db.findVehicle req.tag (vehicleIdentity sha req.members req.disabledMembers) = none)
    (hstorable : NulFree req.version ∧ req.configSnapshot.all storable = true) :
    let good := req.members.Nodup ∧ ∀ m ∈ req.members, ∃ r ∈ db.componentReleases.rows, r.id = m
    (MembersExact storable sha db req ↔ good) ∧
      (good → MemberInvariant sha (next storable sha db (.vehicle req))) := by
  intro good
  have hrun := run_createVehicleRelease_of_fetch storable sha htag db
  rw [hnone] at hrun
  obtain ⟨⟨-, hheaders⟩, hgood, hbad⟩ := run_cutVehicleRelease storable htag hnone hstorable
  dsimp only at hrun
  rw [← hrun] at hheaders hgood hbad
  have hold : ∀ row ∈ db.members.rows, row.vehicleReleaseId ≠ db.vehicleSeq :=
    fun row hrow => (Db.member_vehicleReleaseId_lt hrow).ne
  by_cases hg : good
  · obtain ⟨hresponse, hmembers⟩ := hgood hg
    have hnew := storedMembers_of_append hmembers hold
    refine ⟨iff_of_true ?_ hg, fun _ row hrow h hidentity => ?_⟩
    · simp only [MembersExact, respondVehicle, hresponse]
      exact hnew
    · rw [next, hheaders, List.mem_append, List.mem_singleton] at hrow
      rcases hrow with hrow | rfl
      · obtain ⟨members, disabled, hhash, hstored⟩ := hinv row hrow h hidentity
        exact ⟨members, disabled, hhash, hstored.append hmembers (db.vehicleIds row hrow).ne⟩
      · exact ⟨_, _, (Option.some.inj hidentity).symm, hnew⟩
  · obtain ⟨e, hresponse⟩ := hbad hg
    refine ⟨iff_of_false ?_ hg, fun h => absurd h hg⟩
    simp only [MembersExact, respondVehicle, hresponse]
    -- The header row is there although the request failed.
    rintro ⟨hunchanged, -⟩
    have hlength := congrArg (fun t => t.rows.length) hunchanged
    simp only [next, hheaders, List.length_append, List.length_singleton] at hlength
    omega

/-- Where every vehicle release has its members, a request either fails without effect or returns a
release with exactly the requested members iff it can store its members, and then every vehicle
release still has its members. -/
theorem membersExact_iff (storable : Value → Bool) {sha : Sha256} {db : Db Value}
    {req : NewVehicleRelease Value} (hinv : MemberInvariant sha db)
    (hsha : CollisionFreeAt sha (vehicleText req.members req.disabledMembers).toByteArray) :
    (MembersExact storable sha db req ↔ MembersStorable storable sha db req) ∧
      (MembersStorable storable sha db req →
        MemberInvariant sha (next storable sha db (.vehicle req))) := by
  -- The courses in the order of the handler: the lookup fails, finds a row, or finds none and the
  -- header is refused or stored. Only the last one depends on the members.
  by_cases htag : NulFree req.tag
  · cases hfind : db.findVehicle req.tag (vehicleIdentity sha req.members req.disabledMembers) with
    | some row =>
      obtain ⟨hexact, hkeeps⟩ := membersExact_of_found storable hinv hsha htag hfind
      exact ⟨iff_of_true hexact fun _ hnone => by simp [hfind] at hnone, fun _ => hkeeps⟩
    | none =>
      by_cases hstorable : NulFree req.version ∧ req.configSnapshot.all storable = true
      · obtain ⟨hexact, hkeeps⟩ := membersExact_of_stored storable hinv htag hfind hstorable
        have hiff : MembersStorable storable sha db req ↔ _ :=
          ⟨fun h => h htag hfind hstorable, fun h _ _ _ => h⟩
        exact ⟨hexact.trans hiff.symm, fun h => hkeeps (hiff.mp h)⟩
      · have hrun := run_createVehicleRelease_of_fetch storable sha htag db
        rw [hfind] at hrun
        obtain ⟨e, hcut⟩ := run_cutVehicleRelease_of_refused storable sha hstorable
        obtain ⟨hexact, hkeeps⟩ := membersExact_of_run_error hinv (hrun.trans hcut)
        exact ⟨iff_of_true hexact fun _ _ h => absurd h hstorable, fun _ => hkeeps⟩
  · obtain ⟨e, hrun⟩ := run_createVehicleRelease_of_nul storable sha htag db
    obtain ⟨hexact, hkeeps⟩ := membersExact_of_run_error hinv hrun
    exact ⟨iff_of_true hexact fun h => absurd h htag, fun _ => hkeeps⟩

/-! ## Sequences of requests -/

theorem memberInvariant_empty (sha : Sha256) (clock : Clock) :
    MemberInvariant sha (Db.empty clock : Db Value) := by
  simp [MemberInvariant, Db.empty]

/-- Component requests do not touch the vehicle tables. -/
theorem memberInvariant_component {storable : Value → Bool} {sha : Sha256} {db : Db Value}
    (hinv : MemberInvariant sha db) (req : NewComponentRelease) :
    MemberInvariant sha (next storable sha db (.component req)) := by
  obtain ⟨⟨hvehicles, hmembers⟩, -⟩ := run_createComponentRelease storable sha req [] db
  simpa only [MemberInvariant, StoredMembers, next, hvehicles, hmembers] using hinv

/-- The condition on a request: a vehicle request can store its members. -/
def CanStore (storable : Value → Bool) (sha : Sha256) (db : Db Value) : Request Value → Prop
  | .component _ => True
  | .vehicle req => MembersStorable storable sha db req

/-- The digest has no collision at the texts of the vehicle requests. -/
def VehicleCollisionFree (sha : Sha256) : Request Value → Prop
  | .component _ => True
  | .vehicle req => CollisionFreeAt sha (vehicleText req.members req.disabledMembers).toByteArray

/-- In a sequence of requests whose vehicle requests can each store their members, every vehicle
request fails without effect or returns a release with exactly the requested members; and after it
the next vehicle request does so iff it can store its members. -/
theorem members_exact_iff (storable : Value → Bool) (sha : Sha256) (clock : Clock)
    (reqs : List (Request Value))
    (hsha : ∀ req ∈ reqs, VehicleCollisionFree sha req)
    (hmeet : Trace.AllMeet (next storable sha) (CanStore storable sha) (.empty clock) reqs) :
    (∀ before req after, reqs = before ++ .vehicle req :: after →
      MembersExact storable sha (before.foldl (next storable sha) (.empty clock)) req) ∧
    ∀ req : NewVehicleRelease Value, VehicleCollisionFree sha (.vehicle req) →
      (MembersExact storable sha (reqs.foldl (next storable sha) (.empty clock)) req ↔
        MembersStorable storable sha (reqs.foldl (next storable sha) (.empty clock)) req) := by
  -- Along a run that meets the condition, every vehicle release has its members.
  have hinv : ∀ before, before ⊆ reqs →
      Trace.AllMeet (next storable sha) (CanStore storable sha) (.empty clock) before →
      MemberInvariant sha (before.foldl (next storable sha) (.empty clock)) := by
    intro before hsub hbefore
    refine hbefore.invariant (memberInvariant_empty sha clock) fun db req hreq hdb hcond => ?_
    cases req with
    | component req => exact memberInvariant_component hdb req
    | vehicle req => exact (membersExact_iff storable hdb (hsha _ (hsub hreq))).2 hcond
  constructor
  · rintro before req after rfl
    obtain ⟨hbefore, hcond, -⟩ := Trace.allMeet_append.mp hmeet
    exact (membersExact_iff storable (hinv before (by simp) hbefore)
      (hsha (.vehicle req) (by simp))).1.mpr hcond
  · intro req hreq
    exact (membersExact_iff storable (hinv reqs (List.Subset.refl _) hmeet) hreq).1

/-- A vehicle request for two component releases that were just created stores both of them, the
second one as disabled. -/
theorem members_exact_two_members :
    let vm1 : NewComponentRelease :=
      ⟨"vm1", "vm", "1.0", [⟨"kernel", "file", ⟨Vector.replicate 32 7⟩⟩]⟩
    let vm2 : NewComponentRelease :=
      ⟨"vm2", "vm", "1.0", [⟨"rootfs", "file", ⟨Vector.replicate 32 7⟩⟩]⟩
    let vehicle : NewVehicleRelease Unit :=
      { tag := "drive", version := "1.0", members := [1, 2], disabledMembers := [2] }
    let digest : ContentHash := ⟨#v[193, 211, 128, 134, 10, 255, 86, 9, 35, 171, 175, 126, 38, 254,
      220, 222, 148, 100, 113, 71, 179, 189, 144, 208, 18, 237, 187, 203, 123, 230, 209, 156]⟩
    let vm1Digest : ContentHash := ⟨#v[154, 44, 253, 119, 117, 104, 94, 80, 173, 39, 127, 187, 34,
      104, 10, 222, 150, 136, 23, 65, 15, 90, 125, 218, 151, 203, 15, 117, 211, 216, 176, 207]⟩
    let vm2Digest : ContentHash := ⟨#v[216, 246, 71, 57, 65, 244, 231, 111, 52, 240, 112, 39, 126,
      160, 117, 117, 44, 61, 119, 105, 177, 131, 149, 209, 226, 130, 39, 254, 102, 97, 222, 179]⟩
    let sha := Sha256.ofDigests [(vehicleText [1, 2] [2], digest),
      (componentText "vm" vm1.parts, vm1Digest), (componentText "vm" vm2.parts, vm2Digest)]
    let storable : Unit → Bool := fun _ => true
    MembersExact storable sha
      ([.component vm1, .component vm2].foldl (next storable sha) (.empty id)) vehicle := by
  intro vm1 vm2 vehicle digest vm1Digest vm2Digest sha storable
  have hsha : CollisionFreeAt sha (vehicleText [1, 2] [2]).toByteArray :=
    collisionFreeAt_ofDigests (by decide) (by decide)
  have hrows : ∀ m ∈ vehicle.members,
      ∃ r ∈ ([.component vm1, .component vm2].foldl (next storable sha)
        (.empty id)).componentReleases.rows, r.id = m := by
    decide +kernel
  -- The digests are not to be evaluated any more.
  clear_value sha storable
  have hmeet : Trace.AllMeet (next storable sha) (CanStore storable sha) (.empty id)
      [.component vm1, .component vm2, .vehicle vehicle] :=
    ⟨trivial, trivial, fun _ _ _ => ⟨by decide, hrows⟩, trivial⟩
  refine (members_exact_iff storable sha id _ ?_ hmeet).1 [.component vm1, .component vm2] vehicle
    [] rfl
  intro req hreq
  simp only [List.mem_cons, List.not_mem_nil, or_false] at hreq
  rcases hreq with rfl | rfl | rfl
  · trivial
  · trivial
  · exact hsha

/-- A vehicle request for a component release that does not exist fails, but leaves a header, and
repeating it returns that header without the member. -/
theorem members_not_exact_missing_component :
    let req : NewVehicleRelease Unit := { tag := "drive", version := "1.0", members := [7] }
    let storable : Unit → Bool := fun _ => true
    req.members ≠ [] ∧ ∀ sha : Sha256,
      let db := next storable sha (.empty id) (.vehicle req)
      ¬ MembersExact storable sha (.empty id) req ∧
        ∃ ref, respondVehicle storable sha db req = .ok ref ∧ ref.reused = true ∧
          ¬ StoredMembers (next storable sha db (.vehicle req)) ref.id req.members
            req.disabledMembers := by
  intro req storable
  refine ⟨by decide, ?_⟩
  intro sha db
  have htag : NulFree req.tag := by decide
  have hstorable : NulFree req.version ∧ req.configSnapshot.all storable = true := by decide
  have hnone : (.empty id : Db Unit).findVehicle req.tag
      (vehicleIdentity sha req.members req.disabledMembers) = none := rfl
  -- The database has no component release at all, so none with the id 7.
  have hbad : ¬ (req.members.Nodup ∧ ∀ m ∈ req.members,
      ∃ r ∈ (.empty id : Db Unit).componentReleases.rows, r.id = m) := by decide
  refine ⟨fun h => hbad ((membersExact_of_stored storable (memberInvariant_empty sha id) htag hnone
    hstorable).1.mp h), ?_⟩
  have hfirst := run_createVehicleRelease_of_fetch storable sha htag (.empty id : Db Unit)
  rw [hnone] at hfirst
  obtain ⟨⟨hcomponents, hheaders⟩, -, -⟩ := run_cutVehicleRelease storable htag hnone hstorable
  dsimp only at hfirst
  rw [← hfirst] at hcomponents hheaders
  have hcomponents : db.componentReleases = (.empty id : Db Unit).componentReleases := hcomponents
  have hfind : db.findVehicle req.tag (vehicleIdentity sha req.members req.disabledMembers) =
      some (vehicleHeader sha (.empty id : Db Unit) req) :=
    Db.findVehicle_eq_some_iff.mpr
      ⟨hheaders ▸ List.mem_append_right _ (List.mem_singleton.mpr rfl), rfl, rfl⟩
  have hrun : (createVehicleRelease sha req).run (postgres storable) [] db =
      (.ok (.fromRow (vehicleHeader sha (.empty id : Db Unit) req).key true), [], db) := by
    rw [run_createVehicleRelease_of_fetch storable sha htag db, hfind]
    rfl
  refine ⟨_, congrArg (·.1) hrun, rfl, ?_⟩
  rw [next, hrun]
  intro hstored
  -- A stored member would refer to a component release.
  obtain ⟨r, hr, -⟩ := db.memberComponent _ ((hstored 7 false).mpr (by decide))
  rw [hcomponents] at hr
  cases hr

end SoftwareTower
