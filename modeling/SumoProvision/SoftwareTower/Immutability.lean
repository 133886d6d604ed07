import SumoProvision.SoftwareTower.Channels

/-!
# Immutable releases and bound channels

Requests that create releases and move channels, executed one at a time under every schedule of
database faults. A request only adds to the release tables: a component release keeps its row and
its parts, a vehicle release keeps its members, and of its row at most a missing configuration
snapshot is filled in (`Extends`). So the tree of a release never changes once its request has
ended, and the tree hash in a row of `channel_targets` stays the one of the release it points at.

`releases_immutable` says this for every sequence of requests.
-/

namespace SoftwareTower

open Wire

variable {Value : Type}

/-! ## What requests do to the release tables -/

/-- The second database has all releases of the first, with the same parts and members. -/
structure Extends (db db' : Db Value) : Prop where
  components : db.componentReleases.rows <+: db'.componentReleases.rows
  parts : ∃ new, db'.parts.rows = db.parts.rows ++ new ∧
    ∀ p ∈ new, (∀ r ∈ db.componentReleases.rows, r.id ≠ p.releaseId) ∧
      ∃ content : ContentHash, p.contentHash = content.toPrefixed
  vehicles : ∀ r ∈ db.vehicleReleases.rows, ∃ r' ∈ db'.vehicleReleases.rows, r'.id = r.id ∧
    ∀ snapshot, r.configSnapshot = some snapshot → r'.configSnapshot = some snapshot
  members : ∃ new, db'.members.rows = db.members.rows ++ new ∧
    ∀ m ∈ new, ∀ r ∈ db.vehicleReleases.rows, r.id ≠ m.vehicleReleaseId

namespace Extends

variable {db db' db'' : Db Value}

/-- Tables that are not touched. -/
theorem of_eq (hcomponents : db'.componentReleases = db.componentReleases)
    (hparts : db'.parts = db.parts) (hvehicles : db'.vehicleReleases = db.vehicleReleases)
    (hmembers : db'.members = db.members) : Extends db db' where
  components := hcomponents ▸ List.prefix_refl _
  parts := ⟨[], by simp [hparts]⟩
  vehicles := fun r hr => ⟨r, hvehicles ▸ hr, rfl, fun _ => id⟩
  members := ⟨[], by simp [hmembers]⟩

theorem refl (db : Db Value) : Extends db db :=
  of_eq rfl rfl rfl rfl

theorem trans (h : Extends db db') (h' : Extends db' db'') : Extends db db'' where
  components := h.components.trans h'.components
  parts := by
    obtain ⟨new, hrows, hnew⟩ := h.parts
    obtain ⟨new', hrows', hnew'⟩ := h'.parts
    refine ⟨new ++ new', by rw [hrows', hrows, List.append_assoc], fun p hp => ?_⟩
    rcases List.mem_append.mp hp with hp | hp
    · exact hnew p hp
    · exact ⟨fun r hr => (hnew' p hp).1 r (h.components.subset hr), (hnew' p hp).2⟩
  vehicles := by
    intro r hr
    obtain ⟨r', hr', hid, hsnapshot⟩ := h.vehicles r hr
    obtain ⟨r'', hr'', hid', hsnapshot'⟩ := h'.vehicles r' hr'
    exact ⟨r'', hr'', hid'.trans hid, fun s hs => hsnapshot' s (hsnapshot s hs)⟩
  members := by
    obtain ⟨new, hrows, hnew⟩ := h.members
    obtain ⟨new', hrows', hnew'⟩ := h'.members
    refine ⟨new ++ new', by rw [hrows', hrows, List.append_assoc], fun m hm r hr => ?_⟩
    rcases List.mem_append.mp hm with hm | hm
    · exact hnew m hm r hr
    · obtain ⟨r', hr', hid, -⟩ := h.vehicles r hr
      rw [← hid]
      exact hnew' m hm r' hr'

theorem vehicle_ids (h : Extends db db') :
    ∀ r ∈ db.vehicleReleases.rows, ∃ r' ∈ db'.vehicleReleases.rows, r'.id = r.id := by
  intro r hr
  obtain ⟨r', hr', hid, -⟩ := h.vehicles r hr
  exact ⟨r', hr', hid⟩

theorem membersOf_eq (h : Extends db db') {v : ℤ}
    (hv : ∃ r ∈ db.vehicleReleases.rows, r.id = v) : db'.membersOf v = db.membersOf v := by
  obtain ⟨new, hrows, hnew⟩ := h.members
  obtain ⟨r, hr, rfl⟩ := hv
  have hnone : new.filter (fun m => m.vehicleReleaseId = r.id) = [] := by
    simpa [List.filter_eq_nil_iff] using fun m hm => (hnew m hm r hr).symm
  rw [Db.membersOf, hrows, List.filter_append, hnone, List.append_nil, Db.membersOf]

theorem partsOf_eq (h : Extends db db') {id : ℤ}
    (hid : ∃ r ∈ db.componentReleases.rows, r.id = id) : db'.partsOf id = db.partsOf id := by
  obtain ⟨new, hrows, hnew⟩ := h.parts
  obtain ⟨r, hr, rfl⟩ := hid
  have hnone : new.filter (fun p => p.releaseId = r.id) = [] := by
    simpa [List.filter_eq_nil_iff] using fun p hp => ((hnew p hp).1 r hr).symm
  rw [Db.partsOf, hrows, List.filter_append, hnone, List.append_nil, Db.partsOf]

theorem componentRelease_eq (h : Extends db db') {id : ℤ}
    (hid : ∃ r ∈ db.componentReleases.rows, r.id = id) :
    db'.componentRelease id = db.componentRelease id := by
  obtain ⟨new, hrows⟩ := h.components
  obtain ⟨r, hr, rfl⟩ := hid
  rw [Db.componentRelease, ← hrows, List.find?_append, Db.componentRelease]
  -- The search ends among the old rows.
  apply Option.or_of_isSome
  rw [List.find?_isSome]
  exact ⟨r, hr, by simp⟩

/-- The tree of a release that exists does not change. -/
theorem resolve_eq (order : RowOrder) (h : Extends db db') {v : ℤ}
    (hv : ∃ r ∈ db.vehicleReleases.rows, r.id = v) : resolve order db' v = resolve order db v := by
  have hentry : ∀ m ∈ order.members (db.membersOf v),
      resolveEntry order db' v m = resolveEntry order db v m := by
    intro m hm
    have hrow : m ∈ db.members.rows := List.mem_of_mem_filter ((order.perm_members _).mem_iff.mp hm)
    have hcomponent := db.memberComponent m hrow
    rw [resolveEntry, resolveEntry, h.componentRelease_eq hcomponent, h.partsOf_eq hcomponent]
  rw [resolve, resolve, h.membersOf_eq hv, Except.mapM_congr hentry]

end Extends

/-! ## One request -/

section Requests

variable (storable : Value → Bool) (sha : Sha256)

theorem extends_createComponentRelease (req : NewComponentRelease)
    (faults : List (Option (Fault SqlError))) (db : Db Value) :
    Extends db ((createComponentRelease sha req).run (postgres storable) faults db).2.2 := by
  obtain ⟨⟨hvehicles, hmembers⟩, heffect⟩ := run_createComponentRelease storable sha req faults db
  cases hcourse : course sha db req faults with
  | refused =>
    rw [hcourse] at heffect
    exact .of_eq heffect.2.1 heffect.2.2 hvehicles hmembers
  | found row =>
    rw [hcourse] at heffect
    rw [heffect.2]
    exact .refl db
  | stored =>
    rw [hcourse] at heffect
    obtain ⟨hheaders, k, -, hparts, -⟩ := heffect
    refine ⟨⟨_, hheaders.symm⟩, ⟨_, hparts, ?_⟩, fun r hr => ⟨r, hvehicles ▸ hr, rfl, fun _ => id⟩,
      ⟨[], by simp [hmembers]⟩⟩
    -- The new parts belong to the id that the sequence gave to the new header.
    intro p hp
    obtain ⟨part, -, rfl⟩ := List.mem_map.mp hp
    exact ⟨fun r hr => (db.componentIds r hr).ne, part.content, rfl⟩

theorem insertMember_snd_cases (db : Db Value) (row : VehicleReleaseMember) :
    (db.insertMember row).2 = db ∨
      ∃ hfree hvehicle hcomponent,
        (db.insertMember row).2 = db.addMember row hfree hvehicle hcomponent := by
  unfold Db.insertMember
  split
  · rename_i hfree
    split
    · rename_i hvehicle
      split
      · rename_i hcomponent
        exact .inr ⟨hfree, hvehicle, hcomponent, rfl⟩
      · exact .inl rfl
    · exact .inl rfl
  · exact .inl rfl

theorem extends_fillSnapshot (db : Db Value) (id : ℤ) (snapshot : Option Value) :
    Extends db (db.fillSnapshot id snapshot) where
  components := List.prefix_refl _
  parts := ⟨[], by simp [Db.fillSnapshot]⟩
  vehicles := by
    intro r hr
    refine ⟨_, List.mem_map_of_mem hr, by simp, fun s hs => ?_⟩
    unfold Db.coalesceSnapshot
    split
    · simp [hs]
    · exact hs
  members := ⟨[], by simp [Db.fillSnapshot]⟩

theorem extends_updateConfigSnapshot (db : Db Value) (id : ℤ) (snapshot : Option Value) :
    Extends db (db.updateConfigSnapshot storable id snapshot).2 := by
  unfold Db.updateConfigSnapshot
  split
  · exact extends_fillSnapshot db id snapshot
  · exact .refl db

theorem insertVehicleRelease_effect (db : Db Value) (tag version identity : String)
    (snapshot : Option Value) :
    let db' := (db.insertVehicleRelease storable tag version identity snapshot).2
    Extends db db' ∧ db'.componentReleases = db.componentReleases ∧ db'.members = db.members := by
  unfold Db.insertVehicleRelease
  dsimp only
  split
  · split
    · refine ⟨⟨List.prefix_refl _, ⟨[], ?_⟩,
        fun r hr => ⟨r, List.mem_append_left _ hr, rfl, fun _ => id⟩, ⟨[], ?_⟩⟩, rfl, rfl⟩
      · simp [Db.addVehicleRelease, Db.advanceVehicles]
      · simp [Db.addVehicleRelease, Db.advanceVehicles]
    · exact ⟨.of_eq rfl rfl rfl rfl, rfl, rfl⟩
  · exact ⟨.refl db, rfl, rfl⟩

theorem of_selectVehicleRelease_eq_ok {db db' : Db Value} {tag identity : String}
    {found : Option ReleaseKey} (h : db.selectVehicleRelease tag identity = (.ok found, db')) :
    found = (db.findVehicle tag identity).map (·.key) := by
  unfold Db.selectVehicleRelease at h
  split at h
  · exact (Except.ok.inj (congrArg Prod.fst h)).symm
  · cases h

/-- The id that a header is stored under is new, and the row is there. -/
theorem of_insertVehicleRelease_eq_ok {db db' : Db Value} {tag version identity : String}
    {snapshot : Option Value} {key : ReleaseKey}
    (h : db.insertVehicleRelease storable tag version identity snapshot = (.ok key, db')) :
    key.id = db.vehicleSeq ∧ ∃ r ∈ db'.vehicleReleases.rows, r.id = key.id := by
  unfold Db.insertVehicleRelease at h
  dsimp only at h
  split at h
  · split at h
    · cases h
      exact ⟨rfl, _, List.mem_append_right _ (List.mem_singleton_self _), rfl⟩
    · cases h
  · cases h

/-- The state of the loop over the members of a new release: some of them are added behind the rows
of `base`, which extends `db`. -/
structure MembersAdded (db base : Db Value) (v : ℤ) (members : List ℤ) (y : Db Value) : Prop where
  extended : Extends db y
  componentReleases : y.componentReleases = base.componentReleases
  vehicleReleases : y.vehicleReleases = base.vehicleReleases
  members : ∀ m ∈ y.members.rows,
    m ∈ base.members.rows ∨ (m.vehicleReleaseId = v ∧ m.componentReleaseId ∈ members)

theorem MembersAdded.insertMember {db base y : Db Value} {v : ℤ} {members : List ℤ}
    (h : MembersAdded db base v members y) (hnew : ∀ r ∈ db.vehicleReleases.rows, r.id ≠ v)
    {m : ℤ} (hm : m ∈ members) (disabledMembers : List ℤ) :
    MembersAdded db base v members (y.insertMember (memberRow v disabledMembers m)).2 := by
  rcases insertMember_snd_cases y (memberRow v disabledMembers m) with heq | ⟨_, _, _, heq⟩
  · rw [heq]
    exact h
  · rw [heq]
    obtain ⟨new, hrows, hold⟩ := h.extended.members
    refine ⟨⟨h.extended.components, h.extended.parts, h.extended.vehicles,
      new ++ [memberRow v disabledMembers m], ?_, ?_⟩,
      h.componentReleases, h.vehicleReleases, ?_⟩
    · rw [← List.append_assoc, ← hrows]
      rfl
    · intro row hrow
      rcases List.mem_append.mp hrow with hrow | hrow
      · exact hold row hrow
      · rw [List.mem_singleton.mp hrow]
        exact hnew
    · intro row hrow
      rcases List.mem_append.mp hrow with hrow | hrow
      · exact h.members row hrow
      · rw [List.mem_singleton.mp hrow]
        exact .inr ⟨rfl, hm⟩

/-- The loop over the members of a new release adds members of that release. -/
theorem run_insertMembers_added {db base : Db Value} (h : Extends db base) {v : ℤ}
    (hnew : ∀ r ∈ db.vehicleReleases.rows, r.id ≠ v) (members disabledMembers : List ℤ)
    (faults : List (Option (Fault SqlError))) :
    MembersAdded db base v members
      ((insertMembers v members disabledMembers).run (postgres storable) faults base).2.2 := by
  refine Prog.run_invariant (S := sql Value)
    (P := fun s => ∃ m ∈ members, s = .insertMember (memberRow v disabledMembers m))
    (I := MembersAdded db base v members) ?_ ?_ faults ⟨h, rfl, rfl, fun _ => .inl⟩
  · rintro _ ⟨m, hm, rfl⟩ y hy
    exact ⟨hy.insertMember hnew hm disabledMembers, fun _ => hy⟩
  · suffices hissues : ∀ l ⊆ members, (Prog.forEach l fun m => Prog.execute (S := sql Value)
        (.insertMember (memberRow v disabledMembers m)) dbError).Issues fun s : Sql Value =>
          ∃ m ∈ members, s = .insertMember (memberRow v disabledMembers m) from
      hissues members (List.Subset.refl _)
    intro l hl
    induction l with
    | nil => trivial
    | cons m l ih =>
      rw [List.cons_subset] at hl
      exact (Prog.issues_execute (S := sql Value) ⟨m, hl.1, rfl⟩ _).bind fun _ => ih hl.2

/-- All that a vehicle request can do: existing releases stay, the release whose id is returned is
there, and only a release that was not found gets members, from the request. -/
structure VehicleEffect (req : NewVehicleRelease Value) (db : Db Value)
    (r : Except (Stop AppError) ReleaseRef) (db' : Db Value) : Prop where
  extended : Extends db db'
  componentReleases : db'.componentReleases = db.componentReleases
  returned : ∀ ref, r = .ok ref → ∃ row ∈ db'.vehicleReleases.rows, row.id = ref.id
  members : ∀ m ∈ db'.members.rows, m ∈ db.members.rows ∨
    (db.findVehicle req.tag (vehicleIdentity sha req.members req.disabledMembers) = none ∧
      m.vehicleReleaseId = db.vehicleSeq ∧ m.componentReleaseId ∈ req.members)

/-- A request that is refused, or only reads. -/
theorem VehicleEffect.of_error (req : NewVehicleRelease Value) {db db' : Db Value}
    (h : Extends db db') (hcomponents : db'.componentReleases = db.componentReleases)
    (hmembers : db'.members = db.members) (e : Stop AppError) :
    VehicleEffect sha req db (.error e) db' :=
  ⟨h, hcomponents, nofun, fun _ hm => .inl (hmembers ▸ hm)⟩

/-- A release that is reused keeps everything it has, and its id is returned. -/
theorem run_reuseVehicleRelease_effect (req : NewVehicleRelease Value) {key : ReleaseKey}
    (faults : List (Option (Fault SqlError))) {db : Db Value}
    (hkey : ∃ r ∈ db.vehicleReleases.rows, r.id = key.id) :
    let o := (reuseVehicleRelease req key).run (postgres storable) faults db
    VehicleEffect sha req db o.1 o.2.2 := by
  intro o
  have hstate : Extends db o.2.2 ∧ o.2.2.componentReleases = db.componentReleases ∧
      o.2.2.members = db.members := by
    refine Prog.run_invariant (S := sql Value)
      (P := fun s => s = .updateConfigSnapshot key.id req.configSnapshot)
      (I := fun y => Extends db y ∧ y.componentReleases = db.componentReleases ∧
        y.members = db.members) ?_ ?_ faults ⟨.refl db, rfl, rfl⟩
    · rintro _ rfl y ⟨hy, hcomponents, hmembers⟩
      have hupdate := hy.trans (extends_updateConfigSnapshot storable y key.id req.configSnapshot)
      refine ⟨⟨hupdate, ?_⟩, fun _ => ⟨hy, hcomponents, hmembers⟩⟩
      change (y.updateConfigSnapshot storable key.id req.configSnapshot).2.componentReleases = _ ∧
        (y.updateConfigSnapshot storable key.id req.configSnapshot).2.members = _
      unfold Db.updateConfigSnapshot
      split
      · exact ⟨hcomponents, hmembers⟩
      · exact ⟨hcomponents, hmembers⟩
    · unfold reuseVehicleRelease
      split
      · exact Prog.Issues.bind (Prog.issues_execute (S := sql Value) rfl dbError) fun _ => trivial
      · trivial
  refine ⟨hstate.1, hstate.2.1, fun ref href => ?_, fun m hm => .inl (hstate.2.2 ▸ hm)⟩
  have hid : ref.id = key.id := by
    obtain ⟨rest, y, hrun⟩ : ∃ rest y, Prog.run (postgres storable) (reuseVehicleRelease req key)
        faults db = (.ok ref, rest, y) := ⟨_, _, Prod.ext href rfl⟩
    unfold reuseVehicleRelease at hrun
    split at hrun
    · obtain ⟨_, _, _, -, hret⟩ := Prog.run_bind_eq_ok_iff.mp hrun
      cases hret
      rfl
    · cases hrun
      rfl
  -- The row that was found is still there.
  obtain ⟨row, hrow, hrowid⟩ := hkey
  obtain ⟨row', hrow', hid'⟩ := hstate.1.vehicle_ids row hrow
  exact ⟨row', hrow', hid'.trans (hrowid.trans hid.symm)⟩

/-- Storing the header adds no component release and no member. -/
theorem run_storeVehicleRelease_effect (tag version identity : String) (snapshot : Option Value)
    (faults : List (Option (Fault SqlError))) (db : Db Value) :
    let db' := ((storeVehicleRelease tag version identity snapshot).run (postgres storable) faults
      db).2.2
    Extends db db' ∧ db'.componentReleases = db.componentReleases ∧ db'.members = db.members :=
  Service.forall_answer (S := sql Value) (P := fun y => Extends db y ∧
    y.componentReleases = db.componentReleases ∧ y.members = db.members) ⟨.refl db, rfl, rfl⟩
    (insertVehicleRelease_effect storable db _ _ _ _) (fun _ => ⟨.refl db, rfl, rfl⟩) _

/-- A release that is cut has its row, whatever happens to its members. -/
theorem VehicleEffect.of_membersAdded {req : NewVehicleRelease Value} {db base db' : Db Value}
    {r : Except (Stop AppError) ReleaseRef} {v : ℤ} (h : MembersAdded db base v req.members db')
    (hnone : db.findVehicle req.tag (vehicleIdentity sha req.members req.disabledMembers) = none)
    (hcomponents : base.componentReleases = db.componentReleases)
    (hmembers : base.members = db.members) (hid : v = db.vehicleSeq)
    (hheader : ∃ r ∈ base.vehicleReleases.rows, r.id = v) (hr : ∀ ref, r = .ok ref → ref.id = v) :
    VehicleEffect sha req db r db' := by
  refine ⟨h.extended, h.componentReleases.trans hcomponents, fun ref href => ?_, fun m hm => ?_⟩
  · rw [hr ref href, h.vehicleReleases]
    exact hheader
  · rcases h.members m hm with hm | ⟨hv, hc⟩
    · exact .inl (hmembers ▸ hm)
    · exact .inr ⟨hnone, hv.trans hid, hc⟩

theorem run_cutVehicleRelease_effect {req : NewVehicleRelease Value}
    (faults : List (Option (Fault SqlError))) {db : Db Value}
    (hnone : db.findVehicle req.tag (vehicleIdentity sha req.members req.disabledMembers) = none) :
    let o := (cutVehicleRelease sha req).run (postgres storable) faults db
    VehicleEffect sha req db o.1 o.2.2 := by
  intro o
  let store : Prog (sql Value) AppError ReleaseKey := storeVehicleRelease req.tag req.version
    (vehicleIdentity sha req.members req.disabledMembers) req.configSnapshot
  have hstore := run_storeVehicleRelease_effect storable req.tag req.version
    (vehicleIdentity sha req.members req.disabledMembers) req.configSnapshot faults db
  rcases hrun : store.run (postgres storable) faults db with ⟨e | key, faults', base⟩
  · rw [hrun] at hstore
    have ho : o = (.error e, faults', base) := Prog.run_bind_of_error hrun _
    rw [ho]
    exact .of_error sha req hstore.1 hstore.2.1 hstore.2.2 e
  · rw [hrun] at hstore
    obtain ⟨hextends, hcomponents, hmembers⟩ := hstore
    obtain ⟨-, -, hexec⟩ := Prog.run_perform_eq_ok_iff.mp hrun
    obtain ⟨hid, hheader⟩ := of_insertVehicleRelease_eq_ok storable hexec
    -- The id of the header is ahead of all others.
    have hnew : ∀ r ∈ db.vehicleReleases.rows, r.id ≠ key.id :=
      fun r hr => hid ▸ (db.vehicleIds r hr).ne
    have hadded := run_insertMembers_added storable hextends hnew req.members req.disabledMembers
      faults'
    have ho : o = _ := Prog.run_bind_of_ok hrun _
    rcases hloop : (insertMembers key.id req.members req.disabledMembers).run (postgres storable)
      faults' base with ⟨e | _, faults'', db'⟩ <;> rw [hloop] at hadded
    · have ho : o = (.error e, faults'', db') := ho.trans (Prog.run_bind_of_error hloop _)
      rw [ho]
      exact .of_membersAdded sha hadded hnone hcomponents hmembers hid hheader nofun
    · have ho : o = (.ok (.fromRow key false), faults'', db') :=
        ho.trans (Prog.run_bind_of_ok hloop _)
      rw [ho]
      refine .of_membersAdded sha hadded hnone hcomponents hmembers hid hheader ?_
      rintro _ ⟨⟩
      rfl

/-- All that a vehicle request can do. -/
theorem run_createVehicleRelease (req : NewVehicleRelease Value)
    (faults : List (Option (Fault SqlError))) (db : Db Value) :
    let o := (createVehicleRelease sha req).run (postgres storable) faults db
    VehicleEffect sha req db o.1 o.2.2 := by
  intro o
  let fetch : Prog (sql Value) AppError (Option ReleaseKey) :=
    fetchVehicleRelease req.tag (vehicleIdentity sha req.members req.disabledMembers)
  have hfetch : (fetch.run (postgres storable) faults db).2.2 = db := by
    refine Service.forall_answer (S := sql Value) (P := (· = db)) rfl ?_ (fun _ => rfl) _
    change (db.selectVehicleRelease req.tag _).2 = db
    unfold Db.selectVehicleRelease
    split <;> rfl
  rcases hrun : fetch.run (postgres storable) faults db with ⟨e | found, faults', db'⟩ <;>
    rw [hrun] at hfetch <;> obtain rfl : db' = db := hfetch
  · have ho : o = (.error e, faults', db') := Prog.run_bind_of_error hrun _
    rw [ho]
    exact .of_error sha req (.refl db') rfl rfl e
  · have ho : o = _ := Prog.run_bind_of_ok hrun _
    rw [ho]
    obtain ⟨-, -, hexec⟩ := Prog.run_perform_eq_ok_iff.mp hrun
    have hfound := of_selectVehicleRelease_eq_ok hexec
    cases found with
    | none => exact run_cutVehicleRelease_effect storable sha faults' (by simpa using hfound.symm)
    | some key =>
      obtain ⟨row, hrow, hkey⟩ := Option.map_eq_some_iff.mp hfound.symm
      exact run_reuseVehicleRelease_effect storable sha req faults'
        ⟨row, (Db.findVehicle_eq_some_iff.mp hrow).1, congrArg ReleaseKey.id hkey⟩

end Requests

/-! ## Sequences of requests -/

/-- A request that changes the catalog. -/
inductive Change (Value : Type) where
  | component (req : NewComponentRelease)
  | vehicle (req : NewVehicleRelease Value)
  | setTarget (req : SetChannelTarget)

/-- A request, and the database faults that it meets. -/
abbrev ChangeStep (Value : Type) := Change Value × List (Option (Fault SqlError))

section Steps

variable (storable : Value → Bool) (sha : Sha256)

/-- The server after a request. The requests that create releases only use the release tables. -/
def Server.next (x : Server Value) : ChangeStep Value → Server Value
  | (.component req, faults) =>
    let o := (createComponentRelease sha req).run (postgres storable) faults x.committed.releases
    ⟨x.committed.withReleases o.2.2
      (extends_createComponentRelease storable sha req faults x.committed.releases).vehicle_ids,
      x.pending⟩
  | (.vehicle req, faults) =>
    let o := (createVehicleRelease sha req).run (postgres storable) faults x.committed.releases
    ⟨x.committed.withReleases o.2.2 (run_createVehicleRelease storable sha req faults
      x.committed.releases).extended.vehicle_ids, x.pending⟩
  | (.setTarget req, faults) =>
    ((setChannelTarget sha req).run (catalogDb .insertion) faults x).2.2

/-- The tree that `resolve_members_to_tree` yields for a vehicle release. -/
def resolvedTree (order : RowOrder) (x : Server Value) (vehicleId : ℤ) :
    Except (Stop AppError) Tree :=
  ((resolveMembersToTree vehicleId).run (catalogDb order) [] x).1

/-- The response to a vehicle request. -/
def Server.respondVehicle (x : Server Value) (req : NewVehicleRelease Value)
    (faults : List (Option (Fault SqlError))) : Except (Stop AppError) ReleaseRef :=
  ((createVehicleRelease sha req).run (postgres storable) faults x.committed.releases).1

/-- The response to a request to move a channel. -/
def Server.respondTarget (x : Server Value) (req : SetChannelTarget)
    (faults : List (Option (Fault SqlError))) : Except (Stop AppError) ChannelTargetRef :=
  ((setChannelTarget sha req).run (catalogDb .insertion) faults x).1

theorem resolvedTree_eq (order : RowOrder) (x : Server Value) (vehicleId : ℤ) :
    resolvedTree order x vehicleId =
      (resolve order x.committed.releases vehicleId).mapError fun e => .failed (dbError e) :=
  congrArg Prod.fst (run_resolveMembersToTree vehicleId x)

/-- A request that moves no channel: it may add to the release tables, and if it was one to move a
channel, it fails. -/
structure Unmoved (x : Server Value) (step : ChangeStep Value) (y : Server Value) : Prop where
  releases : Extends x.committed.releases y.committed.releases
  releaseTargets : y.committed.releaseTargets = x.committed.releaseTargets
  channelTargets : y.committed.channelTargets = x.committed.channelTargets
  response : ∀ req faults, step = (.setTarget req, faults) →
    ∃ e, x.respondTarget sha req faults = .error e

/-- A request that moves a channel: its release was resolved, both rows are written, and it succeeds
unless the reply to its commit is lost. -/
structure Moved (x : Server Value) (req : SetChannelTarget)
    (faults : List (Option (Fault SqlError))) (y : Server Value) (tree : Tree) : Prop where
  resolved : resolve .insertion x.committed.releases req.vehicleReleaseId = .ok tree
  pointed : Pointed x.committed req (treeHash sha tree) y.committed
  response : (∃ ref, x.respondTarget sha req faults = .ok ref) ∨
    ¬ RepliesCommit .insertion (setChannelTarget sha req) faults x

/-- All that a request can do. -/
theorem next_cases (x : Server Value) (step : ChangeStep Value) :
    Unmoved sha x step (x.next storable sha step) ∨
      ∃ req faults tree, step = (.setTarget req, faults) ∧
        Moved sha x req faults (x.next storable sha step) tree := by
  obtain ⟨change, faults⟩ := step
  cases change with
  | component req =>
    exact .inl ⟨extends_createComponentRelease storable sha req faults x.committed.releases, rfl,
      rfl, nofun⟩
  | vehicle req =>
    exact .inl ⟨(run_createVehicleRelease storable sha req faults x.committed.releases).extended,
      rfl, rfl, nofun⟩
  | setTarget req =>
    have hunmoved : ∀ e, x.respondTarget sha req faults = .error e →
        (x.next storable sha (.setTarget req, faults)).committed = x.committed →
        Unmoved sha x (.setTarget req, faults) (x.next storable sha (.setTarget req, faults)) := by
      intro e herror hkept
      refine ⟨?_, congrArg Catalog.releaseTargets hkept, congrArg Catalog.channelTargets hkept, ?_⟩
      · rw [hkept]
        exact .refl _
      · rintro req' faults' ⟨⟩
        exact ⟨e, herror⟩
    -- The move fails and leaves everything, or its transaction commits, whatever the reply is.
    rcases run_setChannelTarget .insertion sha req faults x with
      ⟨e, herror, hkept⟩ | ⟨tree, c', htree, hpointed, ⟨e, herror, hkept⟩ | ⟨hc', hresult⟩⟩
    · exact .inl (hunmoved e herror hkept)
    · exact .inl (hunmoved e herror hkept)
    · refine .inr ⟨req, faults, tree, rfl, htree, ?_, ?_⟩
      · rw [← hc'] at hpointed
        exact hpointed
      · exact hresult.imp (fun hok => ⟨_, hok⟩) fun ⟨_, hlost⟩ => hlost

theorem extends_next (x : Server Value) (step : ChangeStep Value) :
    Extends x.committed.releases (x.next storable sha step).committed.releases := by
  rcases next_cases storable sha x step with h | ⟨req, faults, tree, -, h⟩
  · exact h.releases
  · rw [h.pointed.releases]
    exact .refl _

/-- The run lemma: a sequence of requests only adds to the release tables. -/
theorem extends_foldl_next (x : Server Value) (steps : List (ChangeStep Value)) :
    Extends x.committed.releases
      (steps.foldl (Server.next storable sha) x).committed.releases := by
  induction steps generalizing x with
  | nil => exact .refl _
  | cons step steps ih => exact (extends_next storable sha x step).trans (ih _)

/-- The tree hash of each channel row is the one of the release that the row points at. -/
def TargetsBound (x : Server Value) : Prop :=
  ∀ t ∈ x.committed.channelTargets.rows, ∃ tree,
    resolvedTree .insertion x t.vehicleReleaseId = .ok tree ∧ t.treeHash = treeHash sha tree

theorem TargetsBound.next {x : Server Value} (h : TargetsBound sha x) (step : ChangeStep Value) :
    TargetsBound sha (x.next storable sha step) := by
  rcases next_cases storable sha x step with hx | ⟨req, faults, tree, -, hx⟩
  · intro t ht
    rw [hx.channelTargets] at ht
    -- The release that the row points at exists, so its tree stays.
    have hresolve := hx.releases.resolve_eq .insertion (x.committed.channelRelease t ht)
    rw [resolvedTree_eq, hresolve, ← resolvedTree_eq]
    exact h t ht
  · intro t ht
    rw [resolvedTree_eq, hx.pointed.releases, ← resolvedTree_eq]
    rcases hx.pointed.channelTargets t ht with ht | ⟨time, rfl⟩
    · exact h t ht
    · refine ⟨tree, ?_, rfl⟩
      rw [resolvedTree_eq]
      exact congrArg (fun r => r.mapError fun e => Stop.failed (dbError e)) hx.resolved

theorem targetsBound_foldl_next (clocks : Clocks) (steps : List (ChangeStep Value)) :
    TargetsBound sha (steps.foldl (Server.next storable sha) (.empty clocks)) := by
  have hrun : ∀ x : Server Value, TargetsBound sha x →
      TargetsBound sha (steps.foldl (Server.next storable sha) x) := by
    induction steps with
    | nil => exact fun x hx => hx
    | cons step steps ih => exact fun x hx => ih _ (hx.next storable sha step)
  exact hrun (.empty clocks) (by simp [TargetsBound, Server.empty, Catalog.empty])

/-- Releases are immutable and channel targets stay bound: after any sequence of requests, no later
requests change the tree of a vehicle release that exists or a configuration snapshot that it has;
a release whose id was returned exists; and every channel row has the tree hash of its release. -/
theorem releases_immutable (clocks : Clocks) (before later : List (ChangeStep Value)) :
    let x := before.foldl (Server.next storable sha) (.empty clocks)
    let y := later.foldl (Server.next storable sha) x
    (∀ r ∈ x.committed.releases.vehicleReleases.rows,
      resolvedTree .insertion y r.id = resolvedTree .insertion x r.id ∧
      ∃ r' ∈ y.committed.releases.vehicleReleases.rows, r'.id = r.id ∧
        ∀ snapshot, r.configSnapshot = some snapshot → r'.configSnapshot = some snapshot) ∧
    (∀ first req faults ref, first ++ [(.vehicle req, faults)] <+: before →
      (first.foldl (Server.next storable sha) (.empty clocks)).respondVehicle storable sha req
        faults = .ok ref →
      ∃ r ∈ x.committed.releases.vehicleReleases.rows, r.id = ref.id) ∧
    ∀ t ∈ x.committed.channelTargets.rows, ∃ tree,
      resolvedTree .insertion x t.vehicleReleaseId = .ok tree ∧ t.treeHash = treeHash sha tree := by
  intro x y
  refine ⟨fun r hr => ⟨?_, ?_⟩, ?_, targetsBound_foldl_next storable sha clocks before⟩
  · have hextends := extends_foldl_next storable sha x later
    rw [resolvedTree_eq, resolvedTree_eq, hextends.resolve_eq .insertion ⟨r, hr, rfl⟩]
  · exact (extends_foldl_next storable sha x later).vehicles r hr
  · rintro first req faults ref ⟨rest, rfl⟩ hresponse
    let z := first.foldl (Server.next storable sha) (.empty clocks)
    -- The row is there when the request ends, and later requests keep it.
    obtain ⟨r, hr, hid⟩ := (run_createVehicleRelease storable sha req faults
      z.committed.releases).returned ref hresponse
    have hextends := extends_foldl_next storable sha
      (z.next storable sha (.vehicle req, faults)) rest
    obtain ⟨r', hr', hid'⟩ := hextends.vehicle_ids r hr
    refine ⟨r', ?_, hid'.trans hid⟩
    simpa [x, z, List.foldl_append] using hr'

end Steps

end SoftwareTower
