import SumoProvision.SoftwareTower.Catalog

/-!
# Resolving and moving channels

The handlers of the software tower around `channel_targets`: the resolution of a vehicle release to
its desired tree, `set_channel_target`, the selection of a target for a signed campaign, and the two
lookups of a channel.

`resolve` is what the resolution yields as a function of the release tables alone.
`run_resolveMembersToTree` says that a resolution changes nothing and yields that or an error, and
`run_setChannelTarget` all that moving a channel can do, both under every schedule of database
faults.
-/

namespace SoftwareTower

open Wire

/-! ## Resolution -/

/-- `parse_stored_hash`: a part row with its content hash parsed. -/
def parseStoredHash (vehicleReleaseId : ℤ) (row : ComponentRelease) (p : ComponentReleasePart) :
    Except SqlError Part :=
  match ContentHash.fromStr p.contentHash with
  | .ok content => .ok ⟨p.partKind, p.partId, content⟩
  | .error _ => .error (.database (s!"vehicle release {vehicleReleaseId}, component release " ++
      s!"{row.id} ({row.entityPath}), part '{p.partId}': malformed content hash " ++
      s!"'{p.contentHash}'"))

/-- The entity that a member stands for. -/
def memberEntity (row : ComponentRelease) (disabled : Bool) (parts : List Part) : Entity :=
  ⟨row.entityKind, some row.version, none, parts, disabled, none⟩

section Handlers

variable {Value : Type}

/-- The loop of `resolve_members_to_tree`: each member is put into the tree at the path of its
component release. -/
def resolveMembers (vehicleId : ℤ) :
    List VehicleReleaseMember → Tree → Prog (catalogSql Value) AppError Tree
  | [], tree => return tree
  | m :: members, tree => do
    let row ← Prog.perform (S := catalogSql Value) (.selectComponent m.componentReleaseId) dbError
    let rows ← Prog.perform (S := catalogSql Value) (.selectParts m.componentReleaseId) dbError
    let parts ← Prog.lift ((rows.mapM (parseStoredHash vehicleId row)).mapError dbError)
    -- A member with the same path as an earlier one takes its place.
    resolveMembers vehicleId members
      (tree.insert row.entityPath (memberEntity row m.disabled parts))

/-- A vehicle release id to its desired tree. -/
def resolveMembersToTree (vehicleId : ℤ) : Prog (catalogSql Value) AppError Tree := do
  let members ← Prog.perform (S := catalogSql Value) (.selectMembers vehicleId) dbError
  resolveMembers vehicleId members .empty

/-! ## Moving a channel -/

/-- `PUT /admin/channel-targets` body. -/
structure SetChannelTarget where
  channel : String
  device : String
  architecture : String
  vehicleReleaseId : ℤ
  deriving DecidableEq

/-- `PUT /admin/channel-targets` response. -/
structure ChannelTargetRef where
  channel : String
  device : String
  architecture : String
  vehicleReleaseId : ℤ
  treeHash : String
  deriving DecidableEq

/-- The row that a request adds to the history. -/
def SetChannelTarget.releaseTarget (req : SetChannelTarget) : VehicleReleaseTarget :=
  ⟨req.vehicleReleaseId, req.device, req.architecture⟩

/-- The row that a request puts into the channel. -/
def SetChannelTarget.channelTarget (req : SetChannelTarget) (treeHash : String) : ChannelTarget :=
  ⟨req.channel, req.device, req.architecture, req.vehicleReleaseId, treeHash, 0⟩

/-- The statements of the transaction. -/
def pointTarget (req : SetChannelTarget) (treeHash : String) :
    Prog (catalogSql Value) AppError Unit := do
  Prog.execute (S := catalogSql Value) (.insertReleaseTarget req.releaseTarget) dbError
  Prog.execute (S := catalogSql Value) (.upsertChannelTarget (req.channelTarget treeHash)) dbError
  Prog.execute (S := catalogSql Value) .commit dbError

/-- Drop the transaction. -/
def rollback : Prog (catalogSql Value) AppError Unit :=
  Prog.execute (S := catalogSql Value) .rollback dbError

/-- `PUT /admin/channel-targets`. -/
def setChannelTarget (sha : Sha256) (req : SetChannelTarget) :
    Prog (catalogSql Value) AppError ChannelTargetRef := do
  let tree ← resolveMembersToTree req.vehicleReleaseId
  let th := treeHash sha tree
  Prog.execute (S := catalogSql Value) .begin dbError
  Prog.onStop rollback (pointTarget req th)
  return ⟨req.channel, req.device, req.architecture, req.vehicleReleaseId, th⟩

/-! ## Selecting a target -/

/-- The query for a target. -/
structure TargetSelector where
  channel : Option String := none
  device : Option String := none
  architecture : Option String := none
  vehicleReleaseId : Option ℤ := none
  treeHash : Option String := none
  deriving DecidableEq

/-- The vehicle release of a channel that has exactly one target. -/
def singleTarget (channel : String) : Prog (catalogSql Value) AppError (Option ℤ) := do
  let rows ← Prog.perform (S := catalogSql Value) (.selectTargets channel) dbError
  return if rows.length = 1 then rows.head? else none

/-- The vehicle release that a channel points at: with a device and an architecture an exact
lookup, otherwise the single target of the channel. -/
def channelTargetVehicle (channel : String) (device architecture : Option String) :
    Prog (catalogSql Value) AppError (Option ℤ) :=
  match device, architecture with
  | some d, some a => Prog.perform (S := catalogSql Value) (.selectTarget channel d a) dbError
  -- One of the two alone is not looked at.
  | _, _ => singleTarget channel

/-- Resolve a channel to its desired tree. -/
def resolveChannelTarget (channel : String) (device architecture : Option String) :
    Prog (catalogSql Value) AppError (Option Tree) := do
  match ← channelTargetVehicle channel device architecture with
  | none => return none
  | some vehicleId => return some (← resolveMembersToTree vehicleId)

/-- The tree of the release or of the channel that a selector names. -/
def selectTree (sel : TargetSelector) : Prog (catalogSql Value) AppError (Option Tree) :=
  match sel.vehicleReleaseId, sel.channel with
  | some id, _ => do
    let found ← Prog.perform (S := catalogSql Value) (.vehicleExists id) dbError
    if found then return some (← resolveMembersToTree id) else return none
  | none, some channel => resolveChannelTarget channel sel.device sel.architecture
  | none, none =>
    .ret (.error (.failed (.badRequest "channel or vehicle_release_id is required")))

/-- A supplied tree hash binds the request to the tree it expects. -/
def checkTreeHash (sha : Sha256) (expected : Option String) (tree : Option Tree) :
    Except AppError (Option Tree) :=
  match expected, tree with
  | some expected, some tree =>
    if treeHash sha tree = expected then .ok (some tree)
    else .error (.badRequest "tree_hash does not match release")
  | _, tree => .ok tree

/-- Resolve either an immutable vehicle release or a channel selector. -/
def resolveTarget (sha : Sha256) (sel : TargetSelector) :
    Prog (catalogSql Value) AppError (Option Tree) := do
  let tree ← selectTree sel
  Prog.lift (checkTreeHash sha sel.treeHash tree)

/-- Whether a release was ever pointed at by a channel for the pair. -/
def releaseMatchesTarget (vehicleReleaseId : ℤ) (device architecture : String) :
    Prog (catalogSql Value) AppError Bool :=
  Prog.perform (S := catalogSql Value)
    (.releaseTargetExists ⟨vehicleReleaseId, device, architecture⟩) dbError

/-- The fields of an L1 request that select its target. -/
structure L1Target where
  channel : Option String := none
  vehicleReleaseId : Option ℤ := none
  treeHash : Option String := none
  device : String
  architecture : String
  deriving DecidableEq

/-- A pinned release must have served the device and architecture of the request. -/
def authorizePinned (req : L1Target) : Prog (catalogSql Value) AppError Unit :=
  match req.vehicleReleaseId with
  | some id => do
    let found ← releaseMatchesTarget id req.device req.architecture
    if found then return () else .ret (.error (.failed .notFound))
  | none => return ()

/-- The part of `channel_target_l1` that authorises the request and resolves its tree. -/
def l1Tree (sha : Sha256) (req : L1Target) : Prog (catalogSql Value) AppError Tree := do
  authorizePinned req
  let tree ← resolveTarget sha
    ⟨req.channel, some req.device, some req.architecture, req.vehicleReleaseId, req.treeHash⟩
  Prog.lift (tree.elim (.error .notFound) .ok)

/-! ## Looking a channel up -/

/-- A vehicle release in a response. -/
structure VehicleRef where
  id : ℤ
  tag : String
  version : String
  createdAt : ℕ
  deriving DecidableEq

/-- `GET /channel-targets` response. -/
structure ChannelTargetState (Value : Type) where
  channel : String
  device : Option String
  architecture : Option String
  vehicle : Option VehicleRef
  targetRelease : Option VehicleRef
  treeHash : Option String
  configSnapshot : Option Value
  deriving DecidableEq

/-- `GET /channel-targets`. -/
def getChannelTarget (sel : TargetSelector) :
    Prog (catalogSql Value) AppError (ChannelTargetState Value) := do
  let channel ← Prog.lift (sel.channel.elim (.error (.badRequest "channel is required")) .ok)
  match ← Prog.perform (S := catalogSql Value)
    (.latestTarget channel sel.device sel.architecture) dbError with
  | some (t, r) =>
    let release : VehicleRef := ⟨r.id, r.tag, r.version, r.createdAt⟩
    return ⟨channel, some t.device, some t.architecture, some release, some release,
      some t.treeHash, r.configSnapshot⟩
  | none => return ⟨channel, none, none, none, none, none, none⟩

end Handlers

/-! ## What the resolution yields -/

/-- The path and the entity that a member stands for. -/
def resolveEntry {Value : Type} (order : RowOrder) (db : Db Value) (vehicleId : ℤ)
    (m : VehicleReleaseMember) : Except SqlError (String × Entity) := do
  let row ← (db.componentRelease m.componentReleaseId).elim (.error rowNotFound) .ok
  let parts ← (order.parts (db.partsOf m.componentReleaseId)).mapM (parseStoredHash vehicleId row)
  return (row.entityPath, memberEntity row m.disabled parts)

/-- The tree of a vehicle release, as a function of the release tables. -/
def resolve {Value : Type} (order : RowOrder) (db : Db Value) (vehicleId : ℤ) :
    Except SqlError Tree :=
  ((order.members (db.membersOf vehicleId)).mapM (resolveEntry order db vehicleId)).map Tree.ofList

section Reads

variable {Value : Type} {order : RowOrder} {x y : Server Value}

@[simp] theorem Server.read_snd (texts : List String) {α : Type} (result : Except SqlError α) :
    (x.read texts result).2 = x := by
  unfold Server.read
  split <;> rfl

theorem Server.read_eq_ok_iff {texts : List String} {α : Type} {result : Except SqlError α}
    {a : α} : x.read texts result = (.ok a, y) ↔
      (∀ s ∈ texts, NulFree s) ∧ result = .ok a ∧ x = y := by
  unfold Server.read
  split
  · rename_i htexts
    rw [Prod.mk.injEq, and_iff_right htexts]
  · rename_i htexts
    simp [htexts]

/-- The statement only reads. -/
def CatalogSql.Reads : CatalogSql → Prop
  | .begin => False
  | .insertReleaseTarget _ => False
  | .upsertChannelTarget _ => False
  | .commit => False
  | .rollback => False
  | _ => True

theorem exec_of_reads {s : CatalogSql} (hs : s.Reads) (x : Server Value) :
    ((catalogDb order).exec s x).2 = x := by
  cases s <;> first | exact hs.elim | exact Server.read_snd _ _

/-- A program that only reads leaves the server as it is, whatever faults it meets. -/
theorem run_snd_of_reads {ε α : Type} {p : Prog (catalogSql Value) ε α}
    (hp : p.Issues CatalogSql.Reads) (faults : List (Option (Fault SqlError))) (x : Server Value) :
    (p.run (catalogDb order) faults x).2.2 = x := by
  refine Prog.run_invariant (S := catalogSql Value) (I := (· = x)) ?_ hp faults rfl
  rintro s hs _ rfl
  exact ⟨exec_of_reads hs _, fun _ => rfl⟩

theorem reads_resolveMembers (vehicleId : ℤ) (members : List VehicleReleaseMember) (tree : Tree) :
    (resolveMembers vehicleId members tree :
      Prog (catalogSql Value) AppError Tree).Issues CatalogSql.Reads := by
  induction members generalizing tree with
  | nil => trivial
  | cons m members ih =>
    refine (Prog.issues_perform (S := catalogSql Value) trivial _).bind fun row => ?_
    refine (Prog.issues_perform (S := catalogSql Value) trivial _).bind fun rows => ?_
    exact Prog.Issues.bind trivial fun parts => ih _

theorem reads_resolveMembersToTree (vehicleId : ℤ) :
    (resolveMembersToTree vehicleId : Prog (catalogSql Value) AppError Tree).Issues
      CatalogSql.Reads :=
  (Prog.issues_perform (S := catalogSql Value) trivial _).bind fun members =>
    reads_resolveMembers vehicleId members .empty

/-- A read without a fault. -/
theorem run_perform_nil {s : CatalogSql} {r : CatalogSql.Reply Value s}
    (h : (catalogDb order).exec s x = (.ok r, x)) :
    (Prog.perform (S := catalogSql Value) s dbError).run (catalogDb order) [] x = (.ok r, [], x) :=
  Prog.run_perform_of_ok (S := catalogSql Value)
    (Service.answer_none_of_ok (S := catalogSql Value) h) dbError

/-- A read that is answered with a result. -/
theorem of_run_perform_eq_ok {s : CatalogSql} {texts : List String}
    {result : Except SqlError (CatalogSql.Reply Value s)} {r : CatalogSql.Reply Value s}
    {faults rest : List (Option (Fault SqlError))}
    (h : (Prog.perform (S := catalogSql Value) s dbError).run (catalogDb order) faults x =
      (.ok r, rest, y))
    (hexec : (catalogDb order).exec s x = x.read texts result) :
    (∀ t ∈ texts, NulFree t) ∧ result = .ok r ∧ x = y := by
  obtain ⟨-, -, hread⟩ := Prog.run_perform_eq_ok_iff.mp h
  rw [hexec] at hread
  exact Server.read_eq_ok_iff.mp hread

/-- The loop without faults. -/
theorem run_resolveMembers (vehicleId : ℤ) (members : List VehicleReleaseMember) (tree : Tree)
    (x : Server Value) :
    (resolveMembers vehicleId members tree).run (catalogDb order) [] x =
      (((members.mapM (resolveEntry order x.committed.releases vehicleId)).map
        fun entries => entries.foldl (fun t e => t.insert e.1 e.2) tree).mapError
          fun e => .failed (dbError e), [], x) := by
  -- The induction is on the members. Each of them is read by two statements, and the tree that has
  -- been built so far is the accumulator.
  induction members generalizing tree with
  | nil => rfl
  | cons m members ih =>
    rw [List.mapM_cons, resolveMembers]
    cases hrow : x.committed.releases.componentRelease m.componentReleaseId with
    | none =>
      have hselect : (catalogDb order).exec (.selectComponent m.componentReleaseId) x =
          (.error rowNotFound, x) := by
        simp [catalogDb, Server.read, hrow]
      rw [Prog.run_bind_of_error (Prog.run_perform_of_error (S := catalogSql Value)
        (Service.answer_none_of_error (S := catalogSql Value) hselect) dbError)]
      simp [resolveEntry, hrow, Stop.map, Except.map]
    | some row =>
      have hselect : (catalogDb order).exec (.selectComponent m.componentReleaseId) x =
          (.ok row, x) := by
        simp [catalogDb, Server.read, hrow]
      have hparts : (catalogDb order).exec (.selectParts m.componentReleaseId) x =
          (.ok (order.parts (x.committed.releases.partsOf m.componentReleaseId)), x) := by
        simp [catalogDb, Server.read]
      rw [Prog.run_bind_of_ok (run_perform_nil hselect),
        Prog.run_bind_of_ok (run_perform_nil hparts)]
      cases hparse : (order.parts (x.committed.releases.partsOf m.componentReleaseId)).mapM
          (parseStoredHash vehicleId row) with
      | error e => simp [resolveEntry, hrow, hparse, Prog.lift, Except.map]
      | ok parts =>
        simp only [resolveEntry, hrow, hparse, Prog.lift, Option.elim_some, Except.mapError_ok,
          Prog.bind_ok, ih, Except.ok_bind]
        cases members.mapM (resolveEntry order x.committed.releases vehicleId) <;> rfl

/-- The loop under faults: a result is what it is without them. -/
theorem run_resolveMembers_of_ok {vehicleId : ℤ} {members : List VehicleReleaseMember}
    {tree result : Tree} {faults rest : List (Option (Fault SqlError))}
    (h : (resolveMembers vehicleId members tree).run (catalogDb order) faults x =
      (.ok result, rest, y)) :
    ∃ entries, members.mapM (resolveEntry order x.committed.releases vehicleId) = .ok entries ∧
      result = entries.foldl (fun t e => t.insert e.1 e.2) tree := by
  induction members generalizing tree faults with
  | nil =>
    cases h
    exact ⟨[], rfl, rfl⟩
  | cons m members ih =>
    obtain ⟨row, _, _, hselect, h⟩ := Prog.run_bind_eq_ok_iff.mp h
    obtain ⟨-, hrow, rfl⟩ := of_run_perform_eq_ok hselect (exec_selectComponent order x _)
    obtain ⟨rows, _, _, hselect, h⟩ := Prog.run_bind_eq_ok_iff.mp h
    obtain ⟨-, hrows, rfl⟩ := of_run_perform_eq_ok hselect (exec_selectParts order x _)
    obtain ⟨parts, _, _, hlift, h⟩ := Prog.run_bind_eq_ok_iff.mp h
    obtain ⟨hparse, rfl, rfl⟩ := Prog.run_lift_eq_ok_iff.mp hlift
    rw [Except.mapError_eq_ok_iff] at hparse
    obtain ⟨entries, hentries, rfl⟩ := ih h
    refine ⟨(row.entityPath, memberEntity row m.disabled parts) :: entries, ?_, rfl⟩
    rw [List.mapM_cons, resolveEntry, hrow, Except.ok_bind, Except.ok.inj hrows, hparse,
      Except.ok_bind, hentries]
    rfl

/-- What a resolution without faults yields. -/
theorem run_resolveMembersToTree (vehicleId : ℤ) (x : Server Value) :
    (resolveMembersToTree vehicleId).run (catalogDb order) [] x =
      ((resolve order x.committed.releases vehicleId).mapError fun e => .failed (dbError e),
        [], x) := by
  have hselect : (catalogDb order).exec (.selectMembers vehicleId) x =
      (.ok (order.members (x.committed.releases.membersOf vehicleId)), x) := by
    simp [catalogDb, Server.read]
  rw [resolveMembersToTree, Prog.run_bind_of_ok (run_perform_nil hselect), run_resolveMembers,
    resolve]
  simp only [Tree.foldl_insert_eq_ofList]

/-- A resolution that ends with a tree, whatever faults it met, yields what it does without. -/
theorem run_resolveMembersToTree_of_ok {vehicleId : ℤ} {tree : Tree}
    {faults rest : List (Option (Fault SqlError))}
    (h : (resolveMembersToTree vehicleId).run (catalogDb order) faults x = (.ok tree, rest, y)) :
    resolve order x.committed.releases vehicleId = .ok tree ∧ x = y := by
  have hy : y = x := by
    have hreads : ((resolveMembersToTree vehicleId).run (catalogDb order) faults x).2.2 = x :=
      run_snd_of_reads (reads_resolveMembersToTree vehicleId) faults x
    rwa [h] at hreads
  obtain ⟨members, _, _, hselect, h⟩ := Prog.run_bind_eq_ok_iff.mp h
  obtain ⟨-, hmembers, rfl⟩ := of_run_perform_eq_ok hselect (exec_selectMembers order x _)
  obtain ⟨entries, hentries, rfl⟩ := run_resolveMembers_of_ok h
  rw [resolve, Except.ok.inj hmembers, hentries, Tree.foldl_insert_eq_ofList]
  exact ⟨rfl, hy.symm⟩

end Reads

/-! ## What moving a channel does -/

section Writes

variable {Value : Type} {order : RowOrder} {x y : Server Value}

/-- The catalog after both writes of the transaction. -/
def Catalog.point (c : Catalog Value) (req : SetChannelTarget) (treeHash : String) :
    Except SqlError (Catalog Value) := do
  let c ← c.insertReleaseTarget req.releaseTarget
  c.upsertChannelTarget (req.channelTarget treeHash)

/-- What both writes leave: the release tables as they were, one more pair in the history, and in
the channel the old rows and one for the request. -/
structure Pointed (c : Catalog Value) (req : SetChannelTarget) (th : String) (c' : Catalog Value) :
    Prop where
  releases : c'.releases = c.releases
  releaseTargets : ∀ t, t ∈ c'.releaseTargets.rows ↔
    t ∈ c.releaseTargets.rows ∨ t = req.releaseTarget
  channelTargets : ∀ t ∈ c'.channelTargets.rows, t ∈ c.channelTargets.rows ∨
    ∃ time, t = { req.channelTarget th with updatedAt := time }

theorem Catalog.of_insertReleaseTarget_eq_ok {c c' : Catalog Value} {row : VehicleReleaseTarget}
    (h : c.insertReleaseTarget row = .ok c') :
    c'.releases = c.releases ∧ c'.channelTargets = c.channelTargets ∧
      ∀ t, t ∈ c'.releaseTargets.rows ↔ t ∈ c.releaseTargets.rows ∨ t = row := by
  unfold Catalog.insertReleaseTarget at h
  split at h
  · split at h
    · split at h
      · cases h
        exact ⟨rfl, rfl, fun t => by simp [Catalog.addReleaseTarget]⟩
      · cases h
    · rename_i hclash
      cases h
      -- A row that clashes with the new one is the new one.
      have hmem : row ∈ c.releaseTargets.rows := by
        simpa [Table.Free, VehicleReleaseTarget.Clash] using hclash
      refine ⟨rfl, rfl, fun t => ⟨.inl, ?_⟩⟩
      rintro (ht | rfl)
      · exact ht
      · exact hmem
  · cases h

theorem Catalog.of_upsertChannelTarget_eq_ok {c c' : Catalog Value} {target : ChannelTarget}
    (h : c.upsertChannelTarget target = .ok c') :
    c'.releases = c.releases ∧ c'.releaseTargets = c.releaseTargets ∧
      ∀ t ∈ c'.channelTargets.rows, t ∈ c.channelTargets.rows ∨
        ∃ time, t = { target with updatedAt := time } := by
  unfold Catalog.upsertChannelTarget at h
  dsimp only at h
  split at h
  · split at h
    · split at h
      · cases h
        refine ⟨rfl, rfl, fun t ht => ?_⟩
        rcases List.mem_append.mp ht with ht | ht
        · exact .inl ht
        · exact .inr ⟨c.clock 0, List.mem_singleton.mp ht⟩
      · cases h
        refine ⟨rfl, rfl, fun t ht => ?_⟩
        obtain ⟨old, hold, rfl⟩ := List.mem_map.mp ht
        unfold Catalog.replaceTarget
        split
        · exact .inr ⟨c.clock 0, rfl⟩
        · exact .inl hold
    · cases h
  · cases h

theorem Catalog.pointed_of_point_eq_ok {c c' : Catalog Value} {req : SetChannelTarget} {th : String}
    (h : c.point req th = .ok c') : Pointed c req th c' := by
  obtain ⟨c₁, hinsert, hupsert⟩ := Except.bind_eq_ok_iff.mp h
  obtain ⟨hreleases, hchannels, htargets⟩ := of_insertReleaseTarget_eq_ok hinsert
  obtain ⟨hreleases', htargets', hchannels'⟩ := of_upsertChannelTarget_eq_ok hupsert
  exact ⟨hreleases'.trans hreleases, htargets' ▸ htargets, hchannels ▸ hchannels'⟩

theorem Server.write_eq_ok_iff {change : Catalog Value → Except SqlError (Catalog Value)} :
    x.write change = (.ok (), y) ↔
      ∃ c c', x.pending = some c ∧ change c = .ok c' ∧ ⟨x.committed, some c'⟩ = y := by
  unfold Server.write
  cases x.pending with
  | none => simp
  | some c => cases hchange : change c <;> simp [hchange]

@[simp] theorem Server.committed_write (change : Catalog Value → Except SqlError (Catalog Value)) :
    (x.write change).2.committed = x.committed := by
  unfold Server.write
  split
  · rfl
  · split <;> rfl

/-- What is not a commit leaves the committed catalog as it is. -/
theorem committed_exec {s : CatalogSql} (hs : s ≠ .commit) (x : Server Value) :
    ((catalogDb order).exec s x).2.committed = x.committed := by
  cases s with
  | commit => exact absurd rfl hs
  | begin => rfl
  | rollback => rfl
  | insertReleaseTarget row => exact Server.committed_write _
  | upsertChannelTarget target => exact Server.committed_write _
  | _ => exact congrArg Server.committed (Server.read_snd _ _)

/-- The statement is no commit whose reply is lost. -/
def CommitReplied : CatalogSql → Server Value → Option (Fault SqlError) → Prop
  | .commit, _, some (.lost _) => False
  | _, _, _ => True

instance (s : CatalogSql) (x : Server Value) (fault : Option (Fault SqlError)) :
    Decidable (CommitReplied s x fault) :=
  match s, fault with
  | .commit, some (.lost _) => .isFalse fun h => h
  | .commit, none | .commit, some (.rejected _) | .commit, some (.torn ..) => .isTrue trivial
  | .selectMembers _, _ | .selectComponent _, _ | .selectParts _, _ | .vehicleExists _, _
  | .begin, _ | .insertReleaseTarget _, _ | .upsertChannelTarget _, _ | .rollback, _
  | .selectTarget .., _ | .selectTargets _, _ | .releaseTargetExists _, _
  | .latestTarget .., _ => .isTrue trivial

/-- The program loses no reply to a commit. -/
def RepliesCommit (order : RowOrder) {α : Type} (p : Prog (catalogSql Value) AppError α)
    (faults : List (Option (Fault SqlError))) (x : Server Value) : Prop :=
  p.Along (catalogDb order) CommitReplied faults x

/-- A statement that is no commit either ends the program with nothing committed, or is executed
and the program goes on. -/
theorem run_execute_bind (order : RowOrder) {α : Type} {s : CatalogSql} (hs : s ≠ .commit)
    (f : Unit → Prog (catalogSql Value) AppError α) (faults : List (Option (Fault SqlError)))
    (x : Server Value) :
    let p := Prog.execute (S := catalogSql Value) s dbError >>= f
    let o := p.run (catalogDb order) faults x
    (∃ e, o.1 = .error e ∧ o.2.2.committed = x.committed) ∨
      ∃ r y, (catalogDb order).exec s x = (.ok r, y) ∧ y.committed = x.committed ∧
        o = (f ()).run (catalogDb order) faults.tail y ∧
        (RepliesCommit order p faults x → RepliesCommit order (f ()) faults.tail y) := by
  intro p o
  have hkept : (Prog.run (catalogDb order) (Prog.execute (S := catalogSql Value) s dbError) faults
      x).2.2.committed = x.committed :=
    Service.forall_answer (S := catalogSql Value) (P := fun y : Server Value =>
      y.committed = x.committed) rfl (committed_exec hs x) (fun _ => rfl) _
  rcases hrun : Prog.run (catalogDb order) (Prog.execute (S := catalogSql Value) s dbError) faults x
    with ⟨e | _, faults', y⟩
  · rw [hrun] at hkept
    have ho : o = (.error e, faults', y) := Prog.run_bind_of_error hrun f
    rw [ho]
    exact .inl ⟨e, rfl, hkept⟩
  · rw [hrun] at hkept
    have ho : o = _ := Prog.run_bind_of_ok hrun f
    obtain ⟨-, rfl, r, hexec⟩ := Prog.run_execute_eq_ok_iff.mp hrun
    exact .inr ⟨r, y, hexec, hkept, ho, fun h => (Prog.Along.of_bind h).2 _ _ _ hrun⟩

/-- How a part of a request that may commit `c'` can end: with an error and nothing committed, or
with `c'` committed; then it ends with `a` unless the reply to the commit is lost. -/
def CommitEffect {α : Type} (replied : Prop) (c c' : Catalog Value) (a : α)
    (o : Except (Stop AppError) α × List (Option (Fault SqlError)) × Server Value) : Prop :=
  (∃ e, o.1 = .error e ∧ o.2.2.committed = c) ∨
    (o.2.2.committed = c' ∧ (o.1 = .ok a ∨ ((∃ e, o.1 = .error e) ∧ ¬ replied)))

theorem run_commit (order : RowOrder) {c' : Catalog Value} (hpending : x.pending = some c')
    (faults : List (Option (Fault SqlError))) :
    let p : Prog (catalogSql Value) AppError Unit :=
      Prog.execute (S := catalogSql Value) .commit dbError
    CommitEffect (RepliesCommit order p faults x) x.committed c' ()
      (p.run (catalogDb order) faults x) := by
  intro p
  have hexec : (catalogDb order).exec .commit x = (.ok (), ⟨c', none⟩) := by
    simp [catalogDb, Server.commit, hpending]
  -- Rejected or cut off, the statement leaves the transaction open.
  have hopen : ∀ why,
      (catalogDb order).answer (Prog.faultAt faults 0) .commit x = (.error why, x) →
        CommitEffect (RepliesCommit order p faults x) x.committed c' ()
          (p.run (catalogDb order) faults x) := by
    intro why hanswer
    rw [Prog.run_execute_of_error (S := catalogSql Value) hanswer dbError]
    exact .inl ⟨_, rfl, rfl⟩
  cases hfault : Prog.faultAt faults 0 with
  | none =>
    have hanswer := Service.answer_none_of_ok (S := catalogSql Value) hexec
    rw [← hfault] at hanswer
    rw [Prog.run_execute_of_ok (S := catalogSql Value) hanswer dbError]
    exact .inr ⟨rfl, .inl rfl⟩
  | some fault =>
    cases fault with
    | rejected why => exact hopen why (by rw [hfault]; rfl)
    | lost why =>
      have hanswer := Service.answer_lost (S := catalogSql Value) hexec why
      rw [← hfault] at hanswer
      rw [Prog.run_execute_of_error (S := catalogSql Value) hanswer dbError]
      refine .inr ⟨rfl, .inr ⟨⟨_, rfl⟩, ?_⟩⟩
      rintro ⟨hcommit, -⟩
      rwa [← Prog.faultAt_zero, hfault] at hcommit
    | torn n why => exact hopen why (by rw [hfault]; rfl)

/-- A request that loses no reply to a commit does not do so in a part of it. -/
theorem CommitEffect.mono {α : Type} {replied replied' : Prop} {c c' : Catalog Value} {a : α}
    {o : Except (Stop AppError) α × List (Option (Fault SqlError)) × Server Value}
    (h : CommitEffect replied c c' a o) (hreplied : replied' → replied) :
    CommitEffect replied' c c' a o :=
  h.imp_right fun ⟨hcommitted, hresult⟩ =>
    ⟨hcommitted, hresult.imp_right fun ⟨herror, hlost⟩ => ⟨herror, fun h => hlost (hreplied h)⟩⟩

/-- The transaction commits both writes or nothing. -/
theorem run_pointTarget (order : RowOrder) (req : SetChannelTarget) (th : String)
    {c : Catalog Value} (hpending : x.pending = some c) (faults : List (Option (Fault SqlError))) :
    let o := (pointTarget req th).run (catalogDb order) faults x
    (∃ e, o.1 = .error e ∧ o.2.2.committed = x.committed) ∨
      ∃ c', c.point req th = .ok c' ∧
        CommitEffect (RepliesCommit order (pointTarget req th) faults x) x.committed c' () o := by
  intro o
  rcases run_execute_bind order (s := .insertReleaseTarget req.releaseTarget) nofun
    (fun _ => do
      Prog.execute (S := catalogSql Value) (.upsertChannelTarget (req.channelTarget th)) dbError
      Prog.execute (S := catalogSql Value) .commit dbError) faults x with
    hstop | ⟨_, y, hfirst, -, ho, hreplied⟩
  · exact .inl hstop
  -- The writes are done one after the other on the copy of the transaction.
  rw [exec_insertReleaseTarget] at hfirst
  obtain ⟨_, c₁, hc, hinsert, rfl⟩ := Server.write_eq_ok_iff.mp hfirst
  obtain rfl : c = _ := Option.some.inj (hpending.symm.trans hc)
  have ho : o = _ := ho
  rw [ho]
  rcases run_execute_bind order (s := .upsertChannelTarget (req.channelTarget th)) nofun
    (fun _ => Prog.execute (S := catalogSql Value) .commit dbError) faults.tail
    ⟨x.committed, some c₁⟩ with hstop | ⟨_, z, hsecond, -, ho, hreplied'⟩
  · exact .inl hstop
  rw [exec_upsertChannelTarget] at hsecond
  obtain ⟨_, c', hc₁, hupsert, rfl⟩ := Server.write_eq_ok_iff.mp hsecond
  cases hc₁
  have hpoint : c.point req th = .ok c' := by
    rw [Catalog.point, hinsert]
    exact hupsert
  have heffect := run_commit order (x := ⟨x.committed, some c'⟩) rfl faults.tail.tail
  exact .inr ⟨c', hpoint, ho ▸ heffect.mono fun h => hreplied' (hreplied h)⟩

/-- A rollback commits nothing, and the response follows a transaction that ended with a result. -/
theorem run_onStop_rollback (order : RowOrder) {β : Type}
    (p : Prog (catalogSql Value) AppError Unit) (b : β)
    (faults : List (Option (Fault SqlError))) (x : Server Value) :
    let o := p.run (catalogDb order) faults x
    let o' := (Prog.onStop rollback p >>= fun _ => .ret (.ok b)).run (catalogDb order) faults x
    o'.1 = o.1.map (fun _ => b) ∧ o'.2.2.committed = o.2.2.committed := by
  intro o o'
  have hstop : Prog.run (catalogDb order) (Prog.onStop rollback p) faults x = _ :=
    Prog.run_onStop rollback p faults x
  rcases hrun : p.run (catalogDb order) faults x with ⟨e | _, faults', y⟩
  · rw [hrun] at hstop
    have ho : o = (.error e, faults', y) := hrun
    have ho' : o' = _ := Prog.run_bind_of_error hstop _
    rw [ho, ho']
    refine ⟨rfl, ?_⟩
    exact Service.forall_answer (S := catalogSql Value) (P := fun z : Server Value =>
      z.committed = y.committed) rfl rfl (fun _ => rfl) _
  · rw [hrun] at hstop
    have ho : o = (.ok (), faults', y) := hrun
    have ho' : o' = _ := Prog.run_bind_of_ok hstop _
    rw [ho, ho']
    exact ⟨rfl, rfl⟩

/-- The response to a part of a request that ended with a result. -/
theorem CommitEffect.respond {β : Type} {replied : Prop} {c c' : Catalog Value}
    {o : Except (Stop AppError) Unit × List (Option (Fault SqlError)) × Server Value}
    (h : CommitEffect replied c c' () o) {b : β}
    {o' : Except (Stop AppError) β × List (Option (Fault SqlError)) × Server Value}
    (hresult : o'.1 = o.1.map fun _ => b) (hcommitted : o'.2.2.committed = o.2.2.committed) :
    CommitEffect replied c c' b o' := by
  rcases h with ⟨e, herror, hkept⟩ | ⟨hc', hok | ⟨⟨e, herror⟩, hlost⟩⟩
  · rw [herror] at hresult
    exact .inl ⟨e, hresult, hcommitted.trans hkept⟩
  · rw [hok] at hresult
    exact .inr ⟨hcommitted.trans hc', .inl hresult⟩
  · rw [herror] at hresult
    exact .inr ⟨hcommitted.trans hc', .inr ⟨⟨e, hresult⟩, hlost⟩⟩

/-- The transaction of a request, from its begin to the response. -/
theorem run_transaction (order : RowOrder) (req : SetChannelTarget) (th : String) {β : Type} (b : β)
    (faults : List (Option (Fault SqlError))) (x : Server Value) :
    let p : Prog (catalogSql Value) AppError β := do
      Prog.execute (S := catalogSql Value) .begin dbError
      Prog.onStop rollback (pointTarget req th)
      return b
    let o := p.run (catalogDb order) faults x
    (∃ e, o.1 = .error e ∧ o.2.2.committed = x.committed) ∨
      ∃ c', x.committed.point req th = .ok c' ∧
        CommitEffect (RepliesCommit order p faults x) x.committed c' b o := by
  intro p o
  rcases run_execute_bind order (s := .begin) nofun (fun _ =>
    Prog.onStop rollback (pointTarget req th) >>= fun _ => .ret (.ok b)) faults x with
    hstop | ⟨_, y, hbegin, -, ho, hreplied⟩
  · exact .inl hstop
  obtain rfl : ⟨x.committed, some x.committed⟩ = y := congrArg Prod.snd hbegin
  obtain ⟨hresult, hcommitted⟩ := run_onStop_rollback order (pointTarget req th) b faults.tail
    ⟨x.committed, some x.committed⟩
  rw [← ho] at hresult hcommitted
  have hpending : (⟨x.committed, some x.committed⟩ : Server Value).pending = some x.committed := rfl
  rcases run_pointTarget order req th hpending faults.tail with
    ⟨e, herror, hkept⟩ | ⟨c', hpoint, heffect⟩
  · rw [herror] at hresult
    exact .inl ⟨e, hresult, hcommitted.trans hkept⟩
  · refine .inr ⟨c', hpoint, (heffect.mono fun h => ?_).respond hresult hcommitted⟩
    exact (Prog.Along.of_bind (hreplied h)).1.of_onStop

/-- How a request to move a channel ends: it fails and nothing changes, or the release was resolved
and what both writes leave is committed. -/
theorem run_setChannelTarget_point (order : RowOrder) (sha : Sha256) (req : SetChannelTarget)
    (faults : List (Option (Fault SqlError))) (x : Server Value) :
    let o := (setChannelTarget sha req).run (catalogDb order) faults x
    (∃ e, o.1 = .error e ∧ o.2.2.committed = x.committed) ∨
      ∃ tree c', resolve order x.committed.releases req.vehicleReleaseId = .ok tree ∧
        x.committed.point req (treeHash sha tree) = .ok c' ∧
        CommitEffect (RepliesCommit order (setChannelTarget sha req) faults x) x.committed c'
          ⟨req.channel, req.device, req.architecture, req.vehicleReleaseId, treeHash sha tree⟩
          o := by
  intro o
  rcases hresolve : (resolveMembersToTree req.vehicleReleaseId).run (catalogDb order) faults x with
    ⟨e | tree, faults₁, y⟩
  · have hreads : (Prog.run (catalogDb order) (resolveMembersToTree req.vehicleReleaseId) faults
        x).2.2 = x := run_snd_of_reads (reads_resolveMembersToTree req.vehicleReleaseId) faults x
    rw [hresolve] at hreads
    have ho : o = (.error e, faults₁, y) := Prog.run_bind_of_error hresolve _
    rw [ho]
    exact .inl ⟨e, rfl, congrArg Server.committed hreads⟩
  obtain ⟨htree, rfl⟩ := run_resolveMembersToTree_of_ok hresolve
  have ho : o = _ := Prog.run_bind_of_ok hresolve _
  rw [ho]
  let ref : ChannelTargetRef :=
    ⟨req.channel, req.device, req.architecture, req.vehicleReleaseId, treeHash sha tree⟩
  -- The members are read before the transaction, so only the transaction can change anything.
  rcases run_transaction order req (treeHash sha tree) ref faults₁ x with
    hstop | ⟨c', hpoint, heffect⟩
  · exact .inl hstop
  · refine .inr ⟨tree, c', htree, hpoint, heffect.mono fun h => ?_⟩
    exact (Prog.Along.of_bind h).2 _ _ _ hresolve

/-- All that a request to move a channel can do: it fails and nothing changes, or both writes are
committed; then the release was resolved and the request succeeds, unless the reply to its commit is
lost. -/
theorem run_setChannelTarget (order : RowOrder) (sha : Sha256) (req : SetChannelTarget)
    (faults : List (Option (Fault SqlError))) (x : Server Value) :
    let o := (setChannelTarget sha req).run (catalogDb order) faults x
    (∃ e, o.1 = .error e ∧ o.2.2.committed = x.committed) ∨
      ∃ tree c', resolve order x.committed.releases req.vehicleReleaseId = .ok tree ∧
        Pointed x.committed req (treeHash sha tree) c' ∧
        CommitEffect (RepliesCommit order (setChannelTarget sha req) faults x) x.committed c'
          ⟨req.channel, req.device, req.architecture, req.vehicleReleaseId, treeHash sha tree⟩
          o := by
  intro o
  rcases run_setChannelTarget_point order sha req faults x with
    hstop | ⟨tree, c', htree, hpoint, heffect⟩
  · exact .inl hstop
  · exact .inr ⟨tree, c', htree, Catalog.pointed_of_point_eq_ok hpoint, heffect⟩

end Writes

end SoftwareTower
