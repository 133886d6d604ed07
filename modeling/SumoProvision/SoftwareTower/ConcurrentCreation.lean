import SumoProvision.SoftwareTower.ComponentReleases

/-!
# Concurrent requests for one component release

Several requests for the same content run at once, and their statements interleave. The lookup of a
request and its inserts are separate statements, so a request whose lookup falls between the lookup
and the last insert of another one goes wrong: it finds no header and then violates the index, or
finds a header whose parts are still missing.

`LookupAlone` is the condition that no lookup falls there. Under it `create_concurrently` shows that
every request succeeds, with one release id and with exactly the requested parts stored.
-/

namespace SoftwareTower

open Wire

variable {Value ι : Type} [DecidableEq ι]

/-! ## Definitions -/

/-- Requests that run against one database. -/
abbrev Requests (Value ι : Type) :=
  Sys (sql Value) (Db Value) ι AppError ReleaseRef

/-- The configuration in which every request is still to start. The requests differ in the version
they propose at most. -/
def startRequests (sha : Sha256) (db : Db Value) (req : NewComponentRelease)
    (versions : ι → String) : Requests Value ι where
  shared := db
  proc i := createComponentRelease sha { req with version := versions i }

/-- The next statement of the request is its lookup. -/
def AtLookup : Prog (sql Value) AppError ReleaseRef → Prop
  | .call (.selectComponentRelease _ _) _ => True
  | _ => False

/-- The request found no release and is not finished. -/
def Storing : Prog (sql Value) AppError ReleaseRef → Prop
  | .ret _ => False
  | .call (.selectComponentRelease _ _) _ => False
  | .call _ _ => True

/-- The database has no faults, and a request looks its release up only while no request is
storing. -/
def LookupAlone (c : Requests Value ι) (turn : Sys.Turn (sql Value) ι) : Prop :=
  turn.2 = none ∧ (AtLookup (c.proc turn.1) → ∀ j, ¬ Storing (c.proc j))

/-- The release holds exactly the given parts. -/
def HoldsExactly (db : Db Value) (releaseId : ℤ) (parts : List NewPart) : Prop :=
  ∃ stored, StoredParts db releaseId stored ∧ stored.Perm parts

/-- No text of the requests contains a NUL, and the part ids are distinct. -/
structure ValidRequests (req : NewComponentRelease) (versions : ι → String) : Prop where
  path : NulFree req.entityPath
  kind : NulFree req.entityKind
  versions : ∀ i, NulFree (versions i)
  parts : ∀ p ∈ req.parts, p.NulFree
  ids : (req.parts.map (·.id)).Nodup

/-! ## The statements of a request -/

section Steps

variable (storable : Value → Bool) {sha : Sha256} {req : NewComponentRelease}
  {c : Requests Value ι} {i : ι}

/-- What is left of a request after its header: the parts from number `k` on. -/
def storeRest (req : NewComponentRelease) (row : ReleaseKey) (k : ℕ) :
    Prog (sql Value) AppError ReleaseRef := do
  insertParts row.id (req.parts.drop k)
  return .fromRow row false

/-- A statement that is executed: the state after it and what is left of its request. -/
private theorem next_of_call {s : Sql Value}
    {k : Except (Stop SqlError) (Sql.Reply s) → Prog (sql Value) AppError ReleaseRef}
    (h : c.proc i = .call (S := sql Value) s k) {a : Except (Stop SqlError) (Sql.Reply s)}
    {db : Db Value} (hexec : (postgres storable).answer none s c.shared = (a, db)) :
    (Sys.next (postgres storable) c (i, none)).shared = db ∧
      (Sys.next (postgres storable) c (i, none)).proc i = k a := by
  rw [Sys.next, Sys.step_of_call h, hexec]
  exact ⟨rfl, Function.update_self ..⟩

/-- The lookup ends the request with the row it finds, or lets it store a new one. -/
theorem next_lookup (h : c.proc i = createComponentRelease sha req)
    (hpath : NulFree req.entityPath) :
    (Sys.next (postgres storable) c (i, none)).shared = c.shared ∧
      (Sys.next (postgres storable) c (i, none)).proc i =
        match c.shared.findComponent req.entityPath
            (componentIdentity sha req.entityKind req.parts) with
        | some row => .ret (.ok (.fromRow row.key true))
        | none => cutComponentRelease sha req := by
  have hexec : c.shared.selectComponentRelease req.entityPath
      (componentIdentity sha req.entityKind req.parts) =
      (.ok ((c.shared.findComponent req.entityPath
        (componentIdentity sha req.entityKind req.parts)).map (·.key)), c.shared) :=
    if_pos ⟨hpath, nulFree_componentIdentity _ _ _⟩
  obtain ⟨hshared, hproc⟩ :=
    next_of_call storable h (Service.answer_none_of_ok (S := sql Value) hexec)
  refine ⟨hshared, hproc.trans ?_⟩
  -- The two branches of the handler behind its lookup.
  cases c.shared.findComponent req.entityPath (componentIdentity sha req.entityKind req.parts) <;>
    rfl

/-- The header insert of a request that is the first to store. -/
theorem next_header (h : c.proc i = cutComponentRelease sha req) (hpath : NulFree req.entityPath)
    (hkind : NulFree req.entityKind) (hversion : NulFree req.version)
    (hnone : c.shared.findComponent req.entityPath
      (componentIdentity sha req.entityKind req.parts) = none) :
    ∃ hfree, (Sys.next (postgres storable) c (i, none)).shared =
        c.shared.addComponentRelease (headerRow sha c.shared req) rfl hfree ∧
      (Sys.next (postgres storable) c (i, none)).proc i =
        storeRest req (headerRow sha c.shared req).key 0 := by
  obtain ⟨hfree, hexec⟩ := insertComponentRelease_headerRow hpath hkind hversion hnone
  exact ⟨hfree, next_of_call storable h (Service.answer_none_of_ok (S := sql Value) hexec)⟩

/-- The header insert of a request that comes too late. -/
theorem next_header_of_some (h : c.proc i = cutComponentRelease sha req)
    (hpath : NulFree req.entityPath) (hkind : NulFree req.entityKind)
    (hversion : NulFree req.version) {row : ComponentRelease}
    (hsome : c.shared.findComponent req.entityPath
      (componentIdentity sha req.entityKind req.parts) = some row) :
    (Sys.next (postgres storable) c (i, none)).proc i =
      .ret (.error (.failed (dbError (.uniqueViolation "component_releases_identity")))) := by
  have hfree : ¬ c.shared.componentReleases.Free (headerRow sha c.shared req) := fun hfree =>
    nomatch hsome.symm.trans (Db.free_componentRelease_iff.mp hfree)
  have hexec : c.shared.insertComponentRelease req.entityPath req.entityKind req.version
      (componentIdentity sha req.entityKind req.parts) =
      (.error (.uniqueViolation "component_releases_identity"), c.shared.advanceComponents) := by
    rw [Db.insertComponentRelease]
    exact (if_pos ⟨hpath, hkind, hversion, nulFree_toPrefixed _⟩).trans (dif_neg hfree)
  exact (next_of_call storable h (Service.answer_none_of_error (S := sql Value) hexec)).2

/-- The insert of one part. -/
theorem next_part {row : ReleaseKey} {k : ℕ} (h : c.proc i = storeRest req row k)
    (hk : k < req.parts.length) {db' : Db Value}
    (hexec : c.shared.insertPart (partRow row.id req.parts[k]) = (.ok (), db')) :
    (Sys.next (postgres storable) c (i, none)).shared = db' ∧
      (Sys.next (postgres storable) c (i, none)).proc i = storeRest req row (k + 1) := by
  obtain ⟨rest, hcall, hrest⟩ :
      ∃ rest : Except (Stop SqlError) Unit → Prog (sql Value) AppError ReleaseRef,
      c.proc i = .call (.insertPart (partRow row.id req.parts[k])) rest ∧
        rest (.ok ()) = storeRest req row (k + 1) := by
    rw [h, storeRest, insertParts, List.drop_eq_getElem_cons hk]
    -- The loop has a part left, so the next statement of the request is its insert.
    exact ⟨_, rfl, rfl⟩
  rw [← hrest]
  exact next_of_call storable hcall (Service.answer_none_of_ok (S := sql Value) hexec)

/-- Behind the last part the request returns its row. -/
theorem storeRest_length (row : ReleaseKey) :
    (storeRest req row req.parts.length : Prog (sql Value) AppError ReleaseRef) =
      .ret (.ok (.fromRow row false)) := by
  rw [storeRest, List.drop_length]
  rfl

end Steps

/-- A further part of a release that exists. -/
theorem StoredParts.insertPart {db : Db Value} {releaseId : ℤ} {stored : List NewPart} {p : NewPart}
    (h : StoredParts db releaseId stored)
    (hrelease : ∃ r ∈ db.componentReleases.rows, r.id = releaseId) (hnul : p.NulFree)
    (hid : p.id ∉ stored.map (·.id)) :
    ∃ db', db.insertPart (partRow releaseId p) = (.ok (), db') ∧
      db'.componentReleases = db.componentReleases ∧ StoredParts db' releaseId (stored ++ [p]) := by
  have hfree : db.parts.Free (partRow releaseId p) := by
    -- The rows of this release are the parts stored so far, and none of them has this id.
    rintro row hrow ⟨hrel, hpart⟩
    have hmem : row ∈ stored.map (partRow releaseId) :=
      h ▸ List.mem_filter.mpr ⟨hrow, decide_eq_true hrel⟩
    obtain ⟨q, hq, rfl⟩ := List.mem_map.mp hmem
    exact hid (List.mem_map.mpr ⟨q, hq, hpart⟩)
  refine ⟨db.addPart (partRow releaseId p) hnul hfree hrelease, ?_, rfl, ?_⟩
  · rw [Db.insertPart, dif_pos ⟨hnul, nulFree_toPrefixed _⟩, dif_pos hfree]
    exact dif_pos hrelease
  · have hrows : (db.addPart (partRow releaseId p) hnul hfree hrelease).parts.rows =
        db.parts.rows ++ [partRow releaseId p] := rfl
    rw [StoredParts, hrows, List.filter_append, h, List.map_append]
    simp [partRow]

/-! ## Interleavings -/

section Interleavings

variable (storable : Value → Bool) (sha : Sha256) (req : NewComponentRelease)
  (versions : ι → String)

/-- The release of the requests, if the database has one. -/
def released (db : Db Value) : Option ComponentRelease :=
  db.findComponent req.entityPath (componentIdentity sha req.entityKind req.parts)

/-- The program of a request at its start. -/
def startRequest (i : ι) : Prog (sql Value) AppError ReleaseRef :=
  createComponentRelease sha { req with version := versions i }

/-- What holds between the turns: the release is missing and no request has done anything; or it is
there with all its parts, and the requests that ended returned it; or one request is storing it and
the others are still to start. -/
inductive Between (c : Requests Value ι) : Prop
  | missing (hnone : released sha req c.shared = none)
      (hprocs : ∀ i, c.proc i = startRequest sha req versions i)
  | complete (row : ComponentRelease) (hrow : released sha req c.shared = some row)
      (hparts : HoldsExactly c.shared row.id req.parts)
      (hprocs : ∀ i, c.proc i = startRequest sha req versions i ∨
        ∃ ref, c.proc i = .ret (.ok ref) ∧ ref.id = row.id)
  | cutting (i : ι) (hnone : released sha req c.shared = none)
      (hproc : c.proc i = cutComponentRelease sha { req with version := versions i })
      (hothers : ∀ j, j ≠ i → c.proc j = startRequest sha req versions j)
  | storing (i : ι) (row : ComponentRelease) (k : ℕ) (hk : k < req.parts.length)
      (hrow : released sha req c.shared = some row)
      (hparts : StoredParts c.shared row.id (req.parts.take k))
      (hproc : c.proc i = storeRest { req with version := versions i } row.key k)
      (hothers : ∀ j, j ≠ i → c.proc j = startRequest sha req versions j)

variable {storable sha req versions} {c : Requests Value ι}

/-- A release with its first parts is stored further, or complete. -/
private theorem between_of_storeRest {i : ι} {row : ComponentRelease} {k : ℕ}
    (hk : k ≤ req.parts.length) (hrow : released sha req c.shared = some row)
    (hparts : StoredParts c.shared row.id (req.parts.take k))
    (hproc : c.proc i = storeRest { req with version := versions i } row.key k)
    (hothers : ∀ j, j ≠ i → c.proc j = startRequest sha req versions j) :
    Between sha req versions c := by
  -- Behind the last part there is no statement left: the request has ended.
  by_cases hlast : k = req.parts.length
  · subst hlast
    rw [List.take_length] at hparts
    refine .complete row hrow ⟨_, hparts, .refl _⟩ fun j => ?_
    by_cases hj : j = i
    · subst hj
      exact .inr ⟨_, hproc.trans (storeRest_length row.key), rfl⟩
    · exact .inl (hothers j hj)
  · exact .storing i row k (by omega) hrow hparts hproc hothers

private theorem storing_cut (sha : Sha256) (req : NewComponentRelease) :
    Storing (cutComponentRelease sha req : Prog (sql Value) AppError ReleaseRef) :=
  trivial

private theorem storing_storeRest (req : NewComponentRelease) (row : ReleaseKey) {k : ℕ}
    (hk : k < req.parts.length) :
    Storing (storeRest req row k : Prog (sql Value) AppError ReleaseRef) := by
  rw [storeRest, insertParts, List.drop_eq_getElem_cons hk]
  trivial

/-- A lookup that finds nothing lets the request store. -/
private theorem next_start (storable : Value → Bool) {i : ι} (hvalid : ValidRequests req versions)
    (hnone : released sha req c.shared = none)
    (hproc : c.proc i = startRequest sha req versions i) :
    (Sys.next (postgres storable) c (i, none)).shared = c.shared ∧
      (Sys.next (postgres storable) c (i, none)).proc i =
        cutComponentRelease sha { req with version := versions i } := by
  obtain ⟨hshared, hlookup⟩ := next_lookup storable hproc hvalid.path
  rw [show c.shared.findComponent _ _ = none from hnone] at hlookup
  exact ⟨hshared, hlookup⟩

/-- The header of a request that is the first to store is the release, without parts. -/
private theorem next_cut (storable : Value → Bool) {i : ι} (hvalid : ValidRequests req versions)
    (hnone : released sha req c.shared = none)
    (hproc : c.proc i = cutComponentRelease sha { req with version := versions i }) :
    ∃ row, released sha req (Sys.next (postgres storable) c (i, none)).shared = some row ∧
      StoredParts (Sys.next (postgres storable) c (i, none)).shared row.id [] ∧
      (Sys.next (postgres storable) c (i, none)).proc i =
        storeRest { req with version := versions i } row.key 0 := by
  obtain ⟨hfree, hshared, hrest⟩ :=
    next_header storable hproc hvalid.path hvalid.kind (hvalid.versions i) hnone
  rw [hshared]
  refine ⟨_, ?_, ?_, hrest⟩
  · exact Db.findComponent_eq_some_iff.mpr
      ⟨List.mem_append_right _ (List.mem_singleton.mpr rfl), rfl, rfl⟩
  · -- No part row points to an id that was still to be given out.
    refine storedParts_of_append (List.append_nil c.shared.parts.rows).symm fun row hrow => ?_
    exact (Db.part_releaseId_lt hrow).ne

/-- The next part of a request that stores. -/
private theorem next_rest (storable : Value → Bool) {i : ι} {row : ComponentRelease} {k : ℕ}
    (hvalid : ValidRequests req versions) (hk : k < req.parts.length)
    (hrow : released sha req c.shared = some row)
    (hparts : StoredParts c.shared row.id (req.parts.take k))
    (hproc : c.proc i = storeRest { req with version := versions i } row.key k) :
    released sha req (Sys.next (postgres storable) c (i, none)).shared = some row ∧
      StoredParts (Sys.next (postgres storable) c (i, none)).shared row.id
        (req.parts.take (k + 1)) ∧
      (Sys.next (postgres storable) c (i, none)).proc i =
        storeRest { req with version := versions i } row.key (k + 1) := by
  -- The ids are distinct, so the next part is none of those in front of it.
  have hid : req.parts[k].id ∉ (req.parts.take k).map (·.id) := by
    have hnodup : ((req.parts.take (k + 1)).map (·.id)).Nodup :=
      hvalid.ids.sublist ((List.take_sublist _ _).map _)
    rw [List.take_add_one, List.getElem?_eq_getElem hk, Option.toList_some, List.map_append,
      List.nodup_append] at hnodup
    exact fun hmem => hnodup.2.2 _ hmem _ (by simp) rfl
  obtain ⟨db', hexec, hheaders, hstored⟩ := hparts.insertPart
    ⟨row, (Db.findComponent_eq_some_iff.mp hrow).1, rfl⟩ (hvalid.parts _ (List.getElem_mem hk)) hid
  obtain ⟨hshared, hrest⟩ := next_part storable hproc hk hexec
  rw [hshared]
  refine ⟨?_, ?_, hrest⟩
  · rw [released, Db.findComponent, hheaders]
    exact hrow
  · rw [List.take_add_one, List.getElem?_eq_getElem hk]
    exact hstored

/-- One turn keeps what holds between the turns. -/
theorem between_next (storable : Value → Bool) (hvalid : ValidRequests req versions)
    (h : Between sha req versions c) {turn : Sys.Turn (sql Value) ι} (hturn : LookupAlone c turn) :
    Between sha req versions (Sys.next (postgres storable) c turn) := by
  obtain ⟨i, fault⟩ := turn
  obtain ⟨rfl, halone⟩ := hturn
  -- A turn moves one request only.
  have hframe : ∀ j, j ≠ i → (Sys.next (postgres storable) c (i, none)).proc j = c.proc j :=
    fun j hj => Sys.proc_next_of_ne _ _ hj
  cases h with
  | missing hnone hprocs =>
    obtain ⟨hshared, hcut⟩ := next_start storable hvalid hnone (hprocs i)
    exact .cutting i (hshared ▸ hnone) hcut fun j hj => (hframe j hj).trans (hprocs j)
  | complete row hrow hparts hprocs =>
    rcases hprocs i with hproc | ⟨ref, hproc, -⟩
    · obtain ⟨hshared, hfound⟩ := next_lookup storable hproc hvalid.path
      rw [show c.shared.findComponent _ _ = some row from hrow] at hfound
      -- A request that starts now finds the release and ends with it.
      refine .complete row (hshared ▸ hrow) (hshared ▸ hparts) fun j => ?_
      by_cases hj : j = i
      · subst hj
        exact .inr ⟨_, hfound, rfl⟩
      · rw [hframe j hj]
        exact hprocs j
    · -- A turn of a request that has ended does nothing.
      rw [Sys.next, Sys.step_of_ret hproc]
      exact .complete row hrow hparts hprocs
  | cutting i₀ hnone hproc hothers =>
    by_cases hi : i = i₀
    · subst hi
      obtain ⟨row, hrow, hparts, hrest⟩ := next_cut storable hvalid hnone hproc
      exact between_of_storeRest (Nat.zero_le _) hrow hparts hrest fun j hj =>
        (hframe j hj).trans (hothers j hj)
    · -- The lookup of another request would not be alone.
      exact absurd (hproc ▸ storing_cut _ _) (halone (by rw [hothers i hi]; trivial) i₀)
  | storing i₀ row k hk hrow hparts hproc hothers =>
    by_cases hi : i = i₀
    · subst hi
      obtain ⟨hrow', hparts', hrest⟩ := next_rest storable hvalid hk hrow hparts hproc
      exact between_of_storeRest hk hrow' hparts' hrest fun j hj =>
        (hframe j hj).trans (hothers j hj)
    · exact absurd (hproc ▸ storing_storeRest _ _ hk) (halone (by rw [hothers i hi]; trivial) i₀)

/-- A request with `n` parts ends within `n + 2` statements. -/
theorem endsWithin_createComponentRelease (req : NewComponentRelease) :
    (createComponentRelease sha req : Prog (sql Value) AppError ReleaseRef).EndsWithin
      (req.parts.length + 2) := by
  -- The lookup, the header, and one statement for each part.
  rw [show req.parts.length + 2 = 1 + (1 + (req.parts.length + 0)) by omega]
  refine (Prog.endsWithin_perform (S := sql Value) _ _).bind fun found => ?_
  cases found with
  | some row => exact Prog.endsWithin_ret _ _
  | none =>
    refine (Prog.endsWithin_perform (S := sql Value) _ _).bind fun row => ?_
    refine (Prog.endsWithin_forEach fun p => Prog.endsWithin_execute _ _).bind fun _ => ?_
    exact Prog.endsWithin_ret _ _

/-- In every interleaving without faults in which requests look their release up alone, every
request that has ended succeeded, all of them with one release id, and that release holds exactly
the requested parts. A request has ended after two turns and one for each part. -/
theorem create_concurrently (storable : Value → Bool) (sha : Sha256) (req : NewComponentRelease)
    (versions : ι → String) (db : Db Value) (hvalid : ValidRequests req versions)
    (hdb : ∀ row, released sha req db = some row → HoldsExactly db row.id req.parts)
    (schedule : List (Sys.Turn (sql Value) ι))
    (halone : Trace.AllMeet (Sys.next (postgres storable)) LookupAlone
      (startRequests sha db req versions) schedule) :
    let d := schedule.foldl (Sys.next (postgres storable)) (startRequests sha db req versions)
    (∀ i r, d.proc i = .ret r → ∃ ref, r = .ok ref ∧ HoldsExactly d.shared ref.id req.parts) ∧
    (∀ i j ref ref', d.proc i = .ret (.ok ref) → d.proc j = .ret (.ok ref') → ref.id = ref'.id) ∧
    ∀ i, req.parts.length + 2 ≤ (schedule.map Prod.fst).count i → ∃ r, d.proc i = .ret r := by
  intro d
  have hinit : Between sha req versions (startRequests sha db req versions) := by
    cases hrow : released sha req db with
    | none => exact .missing hrow fun i => rfl
    | some row => exact .complete row hrow (hdb row hrow) fun i => .inl rfl
  have hd : Between sha req versions d :=
    halone.invariant hinit fun c turn _ hc hturn => between_next storable hvalid hc hturn
  -- A request that has ended is behind its start, so the release is complete.
  have hended : ∀ i r, d.proc i = .ret r → ∃ row ref,
      released sha req d.shared = some row ∧ r = .ok ref ∧ ref.id = row.id ∧
        HoldsExactly d.shared row.id req.parts := by
    intro i r hr
    cases hd with
    | missing hnone hprocs => exact absurd (hr.symm.trans (hprocs i)) nofun
    | complete row hrow hparts hprocs =>
      rcases hprocs i with hproc | ⟨ref, hproc, hid⟩
      · exact absurd (hr.symm.trans hproc) nofun
      · cases hr.symm.trans hproc
        exact ⟨row, ref, hrow, rfl, hid, hparts⟩
    | cutting i₀ hnone hproc hothers =>
      by_cases hi : i = i₀
      · subst hi
        exact absurd (hr.symm.trans hproc) nofun
      · exact absurd (hr.symm.trans (hothers i hi)) nofun
    | storing i₀ row k hk hrow hparts hproc hothers =>
      by_cases hi : i = i₀
      · subst hi
        have hstoring : Storing (d.proc i) := hproc ▸ storing_storeRest _ _ hk
        rw [hr] at hstoring
        exact hstoring.elim
      · exact absurd (hr.symm.trans (hothers i hi)) nofun
  refine ⟨fun i r hr => ?_, fun i j ref ref' hr hr' => ?_, fun i hcount => ?_⟩
  · obtain ⟨row, ref, -, rfl, hid, hparts⟩ := hended i r hr
    exact ⟨ref, rfl, hid ▸ hparts⟩
  · obtain ⟨row, _, hrow, heq, hid, -⟩ := hended i _ hr
    obtain ⟨row', _, hrow', heq', hid', -⟩ := hended j _ hr'
    cases heq
    cases heq'
    rw [hid, hid', Option.some.inj (hrow.symm.trans hrow')]
  · exact Sys.ret_of_count_le (endsWithin_createComponentRelease _) hcount

/-- Turns of one request while no other one is storing meet the condition. -/
theorem lookupAlone_replicate (storable : Value → Bool) {i : ι}
    (h : ∀ j, j ≠ i → ¬ Storing (c.proc j)) (n : ℕ) :
    Trace.AllMeet (Sys.next (postgres storable)) LookupAlone c (List.replicate n (i, none)) := by
  induction n generalizing c with
  | zero => trivial
  | succ n ih =>
    refine ⟨⟨rfl, fun hlookup j => ?_⟩, ih fun j hj => ?_⟩
    · by_cases hj : j = i
      · subst hj
        intro hstoring
        -- A program is not at its lookup and storing at the same time.
        unfold AtLookup at hlookup
        split at hlookup
        · rename_i heq
          rwa [heq] at hstoring
        · exact hlookup
      · exact h j hj
    · rw [Sys.proc_next_of_ne _ _ hj]
      exact h j hj

/-- A lookup between the header and the parts of another request finds a release without parts. -/
theorem lookup_behind_header (storable : Value → Bool) {i j : ι} (hij : j ≠ i)
    (hvalid : ValidRequests req versions) (hparts : req.parts ≠ [])
    (hnone : released sha req c.shared = none) (hi : c.proc i = startRequest sha req versions i)
    (hj : c.proc j = startRequest sha req versions j) :
    let d := [(i, none), (i, none), (j, none)].foldl (Sys.next (postgres storable)) c
    ∃ ref, d.proc j = .ret (.ok ref) ∧ ¬ HoldsExactly d.shared ref.id req.parts := by
  intro d
  let c₁ := Sys.next (postgres storable) c (i, none)
  let c₂ := Sys.next (postgres storable) c₁ (i, none)
  obtain ⟨hshared, hcut⟩ := next_start storable hvalid hnone hi
  -- The header is there and no part of it is: this is what the other request finds.
  obtain ⟨row, hrow, hstored, -⟩ := next_cut storable (c := c₁) hvalid (hshared ▸ hnone) hcut
  have hj₂ : c₂.proc j = startRequest sha req versions j :=
    (Sys.proc_next_of_ne _ c₁ hij).trans ((Sys.proc_next_of_ne _ c hij).trans hj)
  obtain ⟨hshared', hfound⟩ := next_lookup storable hj₂ hvalid.path
  rw [show c₂.shared.findComponent _ _ = some row from hrow] at hfound
  refine ⟨_, hfound, ?_⟩
  rintro ⟨parts, hheld, hperm⟩
  rw [show d.shared = c₂.shared from hshared'] at hheld
  rw [← hstored.eq hheld, List.nil_perm] at hperm
  exact hparts hperm

/-- A lookup before the header of another request lets both store, and the second one fails. -/
theorem lookup_before_header (storable : Value → Bool) {i j : ι} (hij : j ≠ i)
    (hvalid : ValidRequests req versions) (hnone : released sha req c.shared = none)
    (hi : c.proc i = startRequest sha req versions i)
    (hj : c.proc j = startRequest sha req versions j) :
    ([(i, none), (j, none), (i, none), (j, none)].foldl (Sys.next (postgres storable)) c).proc j =
      .ret (.error (.failed (dbError (.uniqueViolation "component_releases_identity")))) := by
  let c₁ := Sys.next (postgres storable) c (i, none)
  let c₂ := Sys.next (postgres storable) c₁ (j, none)
  let c₃ := Sys.next (postgres storable) c₂ (i, none)
  -- Both lookups find nothing, and the header of the first request takes the index entry.
  obtain ⟨hshared₁, hcut₁⟩ := next_start storable hvalid hnone hi
  obtain ⟨hshared₂, hcut₂⟩ := next_start storable (c := c₁) hvalid (hshared₁ ▸ hnone)
    ((Sys.proc_next_of_ne _ c hij).trans hj)
  obtain ⟨row, hrow, -, -⟩ := next_cut storable (c := c₂) hvalid (hshared₂ ▸ hshared₁ ▸ hnone)
    ((Sys.proc_next_of_ne _ c₁ hij.symm).trans hcut₁)
  have hcut₃ : c₃.proc j = cutComponentRelease sha { req with version := versions j } :=
    (Sys.proc_next_of_ne _ c₂ hij).trans hcut₂
  exact next_header_of_some storable hcut₃ hvalid.path hvalid.kind (hvalid.versions j) hrow

end Interleavings

/-! ## Two requests -/

/-- Two requests one after the other return one release with the requested part. -/
theorem create_concurrently_in_turn :
    let req : NewComponentRelease :=
      ⟨"vm1", "vm", "1.0", [⟨"kernel", "file", ⟨Vector.replicate 32 7⟩⟩]⟩
    let versions : Bool → String := fun second => if second then "1.1" else "1.0"
    let schedule : List (Sys.Turn (sql Unit) Bool) :=
      List.replicate 3 (false, none) ++ List.replicate 3 (true, none)
    ValidRequests req versions ∧ ∀ sha : Sha256,
      let d := schedule.foldl (Sys.next (postgres fun _ => true))
        (startRequests sha (.empty id) req versions)
      ∃ ref ref', d.proc false = .ret (.ok ref) ∧ d.proc true = .ret (.ok ref') ∧
        ref.id = ref'.id ∧ HoldsExactly d.shared ref.id req.parts := by
  intro req versions schedule
  have hvalid : ValidRequests req versions :=
    ⟨by decide, by decide, by decide, by decide, by decide⟩
  refine ⟨hvalid, ?_⟩
  intro sha d
  have hfirst : ∃ r, ((List.replicate 3 (false, none)).foldl (Sys.next (postgres fun _ => true))
      (startRequests sha (.empty id) req versions : Requests Unit Bool)).proc false = .ret r :=
    Sys.ret_of_count_le (endsWithin_createComponentRelease _) (by decide)
  have halone : Trace.AllMeet (Sys.next (postgres fun _ => true)) LookupAlone
      (startRequests sha (.empty id) req versions) schedule := by
    -- The second request starts after the first one has ended.
    refine Trace.allMeet_append.mpr ⟨lookupAlone_replicate _ (fun j _ => id) 3,
      lookupAlone_replicate _ (fun j hj => ?_) 3⟩
    obtain ⟨r, hr⟩ := hfirst
    rw [Bool.eq_false_iff.mpr hj, hr]
    exact id
  obtain ⟨hok, hsame, hends⟩ := create_concurrently (fun _ => true) sha req versions (.empty id)
    hvalid nofun schedule halone
  obtain ⟨r, hr⟩ := hends false (by decide)
  obtain ⟨r', hr'⟩ := hends true (by decide)
  obtain ⟨ref, rfl, hholds⟩ := hok _ _ hr
  obtain ⟨ref', rfl, -⟩ := hok _ _ hr'
  exact ⟨ref, ref', hr, hr', hsame _ _ _ _ hr hr', hholds⟩

/-- The second of two requests that look their release up between the header and the part of the
first one returns a release without parts. One that looks it up before the header fails with a
violation of the identity index. -/
theorem create_concurrently_fails_in_between :
    let req : NewComponentRelease :=
      ⟨"vm1", "vm", "1.0", [⟨"kernel", "file", ⟨Vector.replicate 32 7⟩⟩]⟩
    let versions : Bool → String := fun second => if second then "1.1" else "1.0"
    let behind : List (Sys.Turn (sql Unit) Bool) := [(false, none), (false, none), (true, none)]
    let before : List (Sys.Turn (sql Unit) Bool) :=
      [(false, none), (true, none), (false, none), (true, none)]
    ValidRequests req versions ∧ ∀ sha : Sha256,
      let run := List.foldl (Sys.next (postgres fun _ => true))
        (startRequests sha (.empty id) req versions)
      (∃ ref, (run behind).proc true = .ret (.ok ref) ∧
        ¬ HoldsExactly (run behind).shared ref.id req.parts) ∧
      (run before).proc true = .ret (.error (.failed
        (.internal (.sql (.uniqueViolation "component_releases_identity"))))) := by
  intro req versions behind before
  have hvalid : ValidRequests req versions :=
    ⟨by decide, by decide, by decide, by decide, by decide⟩
  refine ⟨hvalid, ?_⟩
  intro sha run
  exact ⟨lookup_behind_header _ (by decide) hvalid (by decide) rfl rfl rfl,
    lookup_before_header _ (by decide) hvalid rfl rfl rfl⟩

end SoftwareTower
