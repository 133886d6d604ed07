import SumoProvision.SoftwareTower.Releases

/-!
# The identities of stored component releases

A component release is reused by its identity hash alone, so the hash has to be the identity of the
parts that are stored. Header and parts are stored one statement after the other, and a request that
ends in between leaves a header whose hash stands for parts that are not there.

`identity_kept_iff` says exactly which requests keep the stored identities: those that end before
the header, those that find a release of the same kind, and those that store every part.
-/

namespace SoftwareTower

open Wire Canonical

variable {Value : Type}

/-! ## Definitions -/

/-- The parts stored for a release, in insertion order. -/
def StoredParts (db : Db Value) (releaseId : ℤ) (parts : List NewPart) : Prop :=
  (db.parts.rows.filter fun row => row.releaseId = releaseId) = parts.map (partRow releaseId)

instance (db : Db Value) (releaseId : ℤ) (parts : List NewPart) :
    Decidable (StoredParts db releaseId parts) :=
  inferInstanceAs (Decidable (_ = _))

/-- Every identity hash is the identity of the parts stored for its release. -/
def IdentityInvariant (sha : Sha256) (db : Db Value) : Prop :=
  ∀ row ∈ db.componentReleases.rows, ∀ h, row.identityHash = some h →
    ∃ parts, StoredParts db row.id parts ∧ componentIdentity sha row.entityKind parts = h

/-- A request together with the faults its statements meet. -/
abbrev ComponentStep :=
  NewComponentRelease × List (Option (Fault SqlError))

/-- The response to a request. -/
def respondComponent (storable : Value → Bool) (sha : Sha256) (db : Db Value)
    (step : ComponentStep) : Except (Stop AppError) ReleaseRef :=
  ((createComponentRelease sha step.1).run (postgres storable) step.2 db).1

/-- The database after a request. -/
def nextComponent (storable : Value → Bool) (sha : Sha256) (db : Db Value) (step : ComponentStep) :
    Db Value :=
  ((createComponentRelease sha step.1).run (postgres storable) step.2 db).2.2

/-- The request leaves every identity hash right, and a reused release holds exactly the requested
parts. -/
def KeepsIdentities (storable : Value → Bool) (sha : Sha256) (db : Db Value)
    (step : ComponentStep) : Prop :=
  IdentityInvariant sha (nextComponent storable sha db step) ∧
    ∀ ref, respondComponent storable sha db step = .ok ref → ref.reused = true →
      ∃ parts, StoredParts (nextComponent storable sha db step) ref.id parts ∧
        parts.Perm step.1.parts

/-- The header is not stored; or the release that is found has the requested kind, and the requested
texts are without NUL; or every part is stored. -/
def StoresAllOrNothing (sha : Sha256) (db : Db Value) (step : ComponentStep) : Prop :=
  match course sha db step.1 step.2 with
  | .refused => True
  -- Another kind with the same text is possible, and so is a NUL in a request that only reads.
  | .found row => row.entityKind = step.1.entityKind ∧ ∀ p ∈ step.1.parts, p.NulFree
  | .stored =>
    ((step.1.parts.map (·.id)).Nodup ∧ ∀ p ∈ step.1.parts, p.NulFree) ∧
      -- The header and the parts; the lookup met no fault, or the course would be another one.
      Prog.AllExecuted step.2.tail (step.1.parts.length + 1)

/-! ## Stored parts -/

theorem StoredParts.nulFree {db : Db Value} {releaseId : ℤ} {parts : List NewPart}
    (h : StoredParts db releaseId parts) : ∀ p ∈ parts, p.NulFree := by
  intro p hp
  have hrow : partRow releaseId p ∈ parts.map (partRow releaseId) := List.mem_map_of_mem hp
  rw [← h] at hrow
  exact db.partTexts _ (List.mem_filter.mp hrow).1

theorem StoredParts.nodup {db : Db Value} {releaseId : ℤ} {parts : List NewPart}
    (h : StoredParts db releaseId parts) : (parts.map (·.id)).Nodup := by
  have hunique : (parts.map (partRow releaseId)).Pairwise fun r r' => ¬ r.Clash r' :=
    h ▸ db.parts.unique.filter _
  rw [List.nodup_iff_pairwise_ne, List.pairwise_map]
  rw [List.pairwise_map] at hunique
  exact hunique.imp fun hclash heq => hclash ⟨rfl, heq⟩

theorem StoredParts.eq {db : Db Value} {releaseId : ℤ} {parts parts' : List NewPart}
    (h : StoredParts db releaseId parts) (h' : StoredParts db releaseId parts') :
    parts = parts' := by
  refine List.map_injective_iff.mpr ?_ (h.symm.trans h')
  intro p q hpq
  cases p
  cases q
  simp_all [partRow, ContentHash.toPrefixed_inj]

/-- What is stored for the releases of a table does not change when another release is appended. -/
theorem StoredParts.append_iff {db db' : Db Value} {releaseId newId : ℤ} {parts new : List NewPart}
    (hrows : db'.parts.rows = db.parts.rows ++ new.map (partRow newId)) (hne : newId ≠ releaseId) :
    StoredParts db' releaseId parts ↔ StoredParts db releaseId parts := by
  have hnew : (new.map (partRow newId)).filter (fun row => row.releaseId = releaseId) = [] := by
    simp [List.filter_eq_nil_iff, partRow, hne]
  rw [StoredParts, StoredParts, hrows, List.filter_append, hnew, List.append_nil]

/-- What is stored for a release that had nothing before. -/
theorem storedParts_of_append {db db' : Db Value} {newId : ℤ} {new : List NewPart}
    (hrows : db'.parts.rows = db.parts.rows ++ new.map (partRow newId))
    (hnone : ∀ row ∈ db.parts.rows, row.releaseId ≠ newId) : StoredParts db' newId new := by
  have hold : db.parts.rows.filter (fun row => row.releaseId = newId) = [] := by
    simpa [List.filter_eq_nil_iff] using hnone
  have hnew : (new.map (partRow newId)).filter (fun row => row.releaseId = newId) =
      new.map (partRow newId) := by
    simp [List.filter_eq_self, partRow]
  rw [StoredParts, hrows, List.filter_append, hold, hnew, List.nil_append]

/-! ## Identities of stored parts -/

private theorem length_componentText (kind : String) (parts : List NewPart) :
    (componentText kind parts).toList.length =
      kind.toList.length + 1 + (parts.flatMap partRecord).length := by
  have hrecords := ((perm_sortOn NewPart.id parts).flatMap_right partRecord).length_eq
  rw [toList_componentText, List.length_append, List.length_cons, hrecords]
  omega

/-- Fewer parts have another text. -/
theorem componentText_take_ne {kind : String} {parts : List NewPart} {k : ℕ}
    (hk : k < parts.length) : componentText kind (parts.take k) ≠ componentText kind parts := by
  intro h
  have hlen := congrArg (fun s => s.toList.length) h
  simp only [length_componentText] at hlen
  -- Every record has at least its two NULs, so a text with fewer records is shorter.
  have hsplit : (parts.flatMap partRecord).length =
      ((parts.take k).flatMap partRecord).length + ((parts.drop k).flatMap partRecord).length := by
    rw [← List.length_append, ← List.flatMap_append, List.take_append_drop]
  have hpos : 0 < ((parts.drop k).flatMap partRecord).length := by
    have hrecord : 0 < (partRecord parts[k]).length := by simp [partRecord]
    rw [List.drop_eq_getElem_cons hk, List.flatMap_cons, List.length_append]
    omega
  omega

/-- The identity of the first parts is the one of all parts iff there are no others. -/
theorem componentIdentity_take_eq_iff {sha : Sha256} {kind : String} {parts : List NewPart} {k : ℕ}
    (hsha : CollisionFreeAt sha (componentText kind parts).toByteArray) (hk : k ≤ parts.length) :
    componentIdentity sha kind (parts.take k) = componentIdentity sha kind parts ↔
      k = parts.length := by
  constructor
  · intro h
    by_contra hne
    exact componentText_take_ne (by omega) (eq_of_hashText_eq hsha h)
  · rintro rfl
    rw [List.take_length]

/-- Two part lists with one text have the same parts iff they have one kind and no NUL. -/
theorem perm_iff_of_componentText_eq {kind kind' : String} {stored parts : List NewPart}
    (hstored : ∀ p ∈ stored, p.NulFree) (hids : (stored.map (·.id)).Nodup)
    (h : componentText kind' stored = componentText kind parts) :
    stored.Perm parts ↔ kind' = kind ∧ ∀ p ∈ parts, p.NulFree := by
  constructor
  · intro hperm
    refine ⟨?_, fun p hp => hstored p (hperm.mem_iff.mpr hp)⟩
    -- Distinct ids: the two lists have one sorted form, so the records agree and the kinds remain.
    have hsorted : sortOn NewPart.id stored = sortOn NewPart.id parts :=
      sortOn_eq_of_perm hperm hids
    have hl := congrArg String.toList h
    rw [toList_componentText, toList_componentText, hsorted] at hl
    exact String.toList_inj.mp (List.append_cancel_right hl)
  · rintro ⟨rfl, hparts⟩
    exact componentText_inj_of_kind hstored hparts h

/-! ## One request -/

theorem findComponent_of_course {sha : Sha256} {db : Db Value} {req : NewComponentRelease}
    {faults : List (Option (Fault SqlError))} {row : ComponentRelease}
    (h : course sha db req faults = .found row) :
    db.findComponent req.entityPath (componentIdentity sha req.entityKind req.parts) =
      some row := by
  unfold course at h
  split at h
  · split at h
    · rename_i hfind
      cases h
      exact hfind
    · split at h
      · cases h
      · cases h
      · split at h <;> cases h
  · cases h

/-- A release with the requested identity holds the requested parts iff it has the requested kind
and the requested texts are without NUL. -/
theorem reused_exact_iff {sha : Sha256} {db : Db Value} {req : NewComponentRelease}
    {row : ComponentRelease} (hinv : IdentityInvariant sha db)
    (hsha : CollisionFreeAt sha (componentText req.entityKind req.parts).toByteArray)
    (hfind : db.findComponent req.entityPath
      (componentIdentity sha req.entityKind req.parts) = some row) :
    (∃ parts, StoredParts db row.id parts ∧ parts.Perm req.parts) ↔
      row.entityKind = req.entityKind ∧ ∀ p ∈ req.parts, p.NulFree := by
  obtain ⟨hrow, -, hidentity⟩ := Db.findComponent_eq_some_iff.mp hfind
  -- The hash of the row that is found is the identity of what is stored for it.
  obtain ⟨stored, hstored, hhash⟩ := hinv row hrow _ hidentity
  rw [← perm_iff_of_componentText_eq hstored.nulFree hstored.nodup (eq_of_hashText_eq hsha hhash)]
  constructor
  · rintro ⟨parts, hparts, hperm⟩
    rwa [hstored.eq hparts]
  · exact fun hperm => ⟨stored, hstored, hperm⟩

/-- A new header keeps the identities iff all its parts are stored. -/
theorem identityInvariant_stored_iff {sha : Sha256} {db db' : Db Value} {req : NewComponentRelease}
    {k : ℕ} (hinv : IdentityInvariant sha db)
    (hsha : CollisionFreeAt sha (componentText req.entityKind req.parts).toByteArray)
    (hheaders : db'.componentReleases.rows = db.componentReleases.rows ++ [headerRow sha db req])
    (hparts : db'.parts.rows =
      db.parts.rows ++ (req.parts.take k).map (partRow db.componentSeq))
    (hk : k ≤ req.parts.length) : IdentityInvariant sha db' ↔ k = req.parts.length := by
  have hnew : StoredParts db' db.componentSeq (req.parts.take k) :=
    storedParts_of_append hparts fun row hrow => (Db.part_releaseId_lt hrow).ne
  rw [← componentIdentity_take_eq_iff hsha hk]
  constructor
  · intro hinv'
    obtain ⟨parts, hstored, hhash⟩ :=
      hinv' (headerRow sha db req) (by simp [hheaders]) _ rfl
    rw [hstored.eq hnew] at hhash
    exact hhash
  · intro hhash row hrow h hidentity
    rw [hheaders, List.mem_append, List.mem_singleton] at hrow
    rcases hrow with hrow | rfl
    · -- The releases that were there keep their parts; the new one has the first `k`.
      obtain ⟨parts, hstored, hold⟩ := hinv row hrow h hidentity
      exact ⟨parts, (StoredParts.append_iff hparts (db.componentIds row hrow).ne').mpr hstored,
        hold⟩
    · exact ⟨_, hnew, hhash.trans (Option.some.inj hidentity)⟩

/-- Where the identities are right, a request keeps them right iff it stores all or nothing. -/
theorem keepsIdentities_iff (storable : Value → Bool) {sha : Sha256} {db : Db Value}
    {step : ComponentStep} (hinv : IdentityInvariant sha db)
    (hsha : CollisionFreeAt sha (componentText step.1.entityKind step.1.parts).toByteArray) :
    KeepsIdentities storable sha db step ↔ StoresAllOrNothing sha db step := by
  have heffect : CourseEffect sha step.1 step.2 db (respondComponent storable sha db step)
      (nextComponent storable sha db step) (course sha db step.1 step.2) :=
    (run_createComponentRelease storable sha step.1 step.2 db).2
  rw [KeepsIdentities, StoresAllOrNothing]
  cases hcourse : course sha db step.1 step.2 with
  -- The three courses: nothing changes, nothing changes and a row is returned, a header is added.
  | refused =>
    rw [hcourse] at heffect
    obtain ⟨⟨e, hresponse⟩, hheaders, hparts⟩ := heffect
    refine iff_of_true ⟨?_, by simp [hresponse]⟩ trivial
    simpa only [IdentityInvariant, StoredParts, hheaders, hparts] using hinv
  | found row =>
    rw [hcourse] at heffect
    obtain ⟨hresponse, hdb⟩ := heffect
    rw [hresponse, hdb]
    refine Iff.trans ?_ (reused_exact_iff hinv hsha (findComponent_of_course hcourse))
    exact ⟨fun h => h.2 _ rfl rfl, fun h => ⟨hinv, fun ref href _ => by cases href; exact h⟩⟩
  | stored =>
    rw [hcourse] at heffect
    obtain ⟨hheaders, k, hk, hparts, hall, hresponse⟩ := heffect
    rw [identityInvariant_stored_iff hinv hsha hheaders hparts hk, hall]
    -- A stored release is not answered as reused.
    refine and_iff_left fun ref href hreused => ?_
    rw [(hresponse ref href).1] at hreused
    cases hreused

/-! ## Sequences of requests -/

theorem identityInvariant_empty (sha : Sha256) (clock : Clock) :
    IdentityInvariant sha (Db.empty clock : Db Value) := by
  simp [IdentityInvariant, Db.empty]

/-- In a sequence of requests that each store all or nothing, every request keeps the identities and
reuses releases with exactly the requested parts; and after it the next request does so iff it
stores all or nothing. -/
theorem identity_kept_iff (storable : Value → Bool) (sha : Sha256) (clock : Clock)
    (steps : List ComponentStep)
    (hsha : ∀ step ∈ steps,
      CollisionFreeAt sha (componentText step.1.entityKind step.1.parts).toByteArray)
    (hmeet : Trace.AllMeet (nextComponent storable sha) (StoresAllOrNothing sha) (.empty clock)
      steps) :
    (∀ before step after, steps = before ++ step :: after →
      KeepsIdentities storable sha (before.foldl (nextComponent storable sha) (.empty clock))
        step) ∧
    ∀ next : ComponentStep,
      CollisionFreeAt sha (componentText next.1.entityKind next.1.parts).toByteArray →
        (KeepsIdentities storable sha (steps.foldl (nextComponent storable sha) (.empty clock))
            next ↔
          StoresAllOrNothing sha (steps.foldl (nextComponent storable sha) (.empty clock))
            next) := by
  -- The invariant holds along the run, by the step lemma in the direction that is needed for it.
  have hinv : ∀ before, before ⊆ steps →
      Trace.AllMeet (nextComponent storable sha) (StoresAllOrNothing sha) (.empty clock) before →
      IdentityInvariant sha (before.foldl (nextComponent storable sha) (.empty clock)) := by
    intro before hsub hbefore
    refine hbefore.invariant (identityInvariant_empty sha clock) fun db step hstep hdb hcond => ?_
    exact ((keepsIdentities_iff storable hdb (hsha step (hsub hstep))).mpr hcond).1
  constructor
  · rintro before step after rfl
    obtain ⟨hbefore, hcond, -⟩ := Trace.allMeet_append.mp hmeet
    exact (keepsIdentities_iff storable (hinv before (by simp) hbefore)
      (hsha step (by simp))).mpr hcond
  · intro next hnext
    exact keepsIdentities_iff storable (hinv steps (List.Subset.refl _) hmeet) hnext

/-- A request with two parts stores both. -/
theorem identity_kept_two_parts :
    let req : NewComponentRelease := ⟨"vm1", "vm", "1.0",
      [⟨"kernel", "file", ⟨Vector.replicate 32 7⟩⟩, ⟨"rootfs", "file", ⟨Vector.replicate 32 8⟩⟩]⟩
    let digest : ContentHash := ⟨#v[199, 20, 118, 219, 176, 116, 179, 100, 22, 142, 141, 254, 19,
      235, 242, 32, 131, 123, 168, 128, 217, 90, 161, 185, 184, 26, 166, 182, 224, 245, 244, 19]⟩
    let sha := Sha256.ofDigests [(componentText req.entityKind req.parts, digest)]
    let storable : Unit → Bool := fun _ => true
    KeepsIdentities storable sha (.empty id) (req, []) := by
  intro req digest sha storable
  have hsha : CollisionFreeAt sha (componentText req.entityKind req.parts).toByteArray :=
    collisionFreeAt_ofDigests (by decide) (by simp)
  have hcourse : course sha (.empty id : Db Unit) req [] = .stored := by decide
  have hmeet : Trace.AllMeet (nextComponent storable sha) (StoresAllOrNothing sha) (.empty id)
      [(req, [])] := by
    refine ⟨?_, trivial⟩
    rw [StoresAllOrNothing, hcourse]
    exact ⟨by decide, fun j _ => .inl rfl⟩
  exact (identity_kept_iff storable sha id _ (by simpa using hsha) hmeet).1 [] _ [] rfl

/-- A request with a repeated part id leaves a header without all of its parts, and repeating it
reuses that header. -/
theorem identity_not_kept_by_repeated_id :
    let req : NewComponentRelease := ⟨"vm1", "vm", "1.0",
      [⟨"kernel", "file", ⟨Vector.replicate 32 7⟩⟩, ⟨"kernel", "file", ⟨Vector.replicate 32 8⟩⟩]⟩
    let storable : Unit → Bool := fun _ => true
    req.parts ≠ [] ∧ ∀ sha : Sha256,
      let db := nextComponent storable sha (.empty id) (req, [])
      (CollisionFreeAt sha (componentText req.entityKind req.parts).toByteArray →
        ¬ IdentityInvariant sha db) ∧
      ∃ ref, respondComponent storable sha db (req, []) = .ok ref ∧ ref.reused = true ∧
        ¬ ∃ parts, StoredParts db ref.id parts ∧ parts.Perm req.parts := by
  intro req storable
  refine ⟨by decide, ?_⟩
  intro sha db
  have htexts : NulFree req.entityPath ∧ NulFree req.entityKind ∧ NulFree req.version := by decide
  have hcourse : course sha (.empty id : Db Unit) req [] = .stored := by
    simp [course, htexts, Db.empty, Db.findComponent]
  have heffect : CourseEffect sha req [] (.empty id)
      (respondComponent storable sha (.empty id) (req, [])) db (course sha (.empty id) req []) :=
    (run_createComponentRelease storable sha req [] (.empty id)).2
  rw [hcourse] at heffect
  obtain ⟨hheaders, k, hk, hparts, hall, -⟩ := heffect
  -- The ids are not distinct, so not all parts can have been stored.
  have hmissing : k ≠ req.parts.length := fun h => absurd (hall.mp h).1.1 (by decide)
  have hstored : StoredParts db 1 (req.parts.take k) :=
    storedParts_of_append hparts (by simp [Db.empty])
  refine ⟨fun hsha hinv => ?_, ?_⟩
  · exact hmissing ((identityInvariant_stored_iff (identityInvariant_empty sha id) hsha hheaders
      hparts hk).mp hinv)
  · have hfind : db.findComponent req.entityPath (componentIdentity sha req.entityKind req.parts) =
        some (headerRow sha (.empty id : Db Unit) req) :=
      Db.findComponent_eq_some_iff.mpr ⟨hheaders ▸ List.mem_append_right _ (by simp), rfl, rfl⟩
    have hfound : course sha db req [] = .found (headerRow sha (.empty id : Db Unit) req) := by
      simp [course, htexts, hfind]
    have heffect : CourseEffect sha req [] db (respondComponent storable sha db (req, [])) _
        (course sha db req []) := (run_createComponentRelease storable sha req [] db).2
    rw [hfound] at heffect
    refine ⟨_, heffect.1, rfl, ?_⟩
    rintro ⟨parts, hheld, hperm⟩
    rw [hheld.eq hstored] at hperm
    have hlength := hperm.length_eq
    rw [List.length_take] at hlength
    omega

end SoftwareTower
