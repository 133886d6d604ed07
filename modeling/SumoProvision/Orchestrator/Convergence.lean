import SumoProvision.Foundations.Worklist
import SumoProvision.Orchestrator.L1Plan

/-!
# Repeated campaigns

A vehicle is brought to a vehicle release by campaigns, one after the other: each reads the rig,
gets a plan from the tower, and the flash engine works off some of the plan's jobs. Between two
campaigns the tower serves other requests, and a campaign may be narrowed to some components, may
find only some components advertised, and may fail at any point.

The engine and the vehicle are outside of the development. What is assumed of them is in `PassOf`:
a report tells the contents and the administrative state of the components it has, a job of a plan
is completed at most once, a component whose job is completed is as the job's own envelope declares
(`Applied`), and a component without a job is left alone.

* `campaigns_complete_once`: no component is completed twice, and a component has a job only if it
  was outstanding at the start and has not been completed since.
* `campaigns_remaining`: if a failed job leaves its component as it was, what is still outstanding,
  and what the next plan has jobs for, is exactly the rest.
-/

open Wire

namespace Orchestrator

open SoftwareTower IdentityTower

/-! ## The vehicle -/

/-- The component is as the target wants it. A disabled one only must not be enabled. -/
def Installed (des e : Entity) : Prop :=
  if des.disabled then e.adminDisabled ≠ some false
  else Carried e des ∧ e.adminDisabled ≠ some true

instance (des e : Entity) : Decidable (Installed des e) :=
  inferInstanceAs (Decidable (ite _ _ _))

/-- The vehicle has the component, and not as the target wants it. Of an enabled component without
parts the target wants nothing. -/
def Outstanding (desired vehicle : Tree) (path : String) : Prop :=
  ∃ des e, desired.get? path = some des ∧ vehicle.get? path = some e ∧
    (des.disabled = true ∨ des.parts ≠ []) ∧ ¬ Installed des e

/-- The two entities have the same contents, under whatever names, and the same state. -/
structure SameState (e e' : Entity) : Prop where
  contents : ∀ content, (∃ p ∈ e.parts, p.content = content) ↔ ∃ p ∈ e'.parts, p.content = content
  adminDisabled : e'.adminDisabled = e.adminDisabled

/-- A report of the vehicle: the components that it advertises, as they are. -/
def ReportOf (vehicle observed : Tree) : Prop :=
  ∀ path obs, observed.get? path = some obs →
    ∃ e, vehicle.get? path = some e ∧ SameState e obs

/-- The component is as an envelope declares: not enabled after a disable manifest, and with all the
contents of an image and not disabled after an image. -/
def Applied (suit : Suit) (envelope : Bytes) (e : Entity) : Prop :=
  ∀ env, suit.decodeEnvelope envelope = .ok env →
    if suit.hasDisableTarget env then e.adminDisabled ≠ some false
    else e.adminDisabled ≠ some true ∧ ∀ i < suit.componentCount env,
      ∀ digest ∈ suit.imageDigest env i, ∃ p ∈ e.parts, p.content.bytes.toList = digest

instance (suit : Suit) (envelope : Bytes) (e : Entity) : Decidable (Applied suit envelope e) :=
  match h : suit.decodeEnvelope envelope with
  | .error _ => .isTrue fun env henv => by rw [h] at henv; cases henv
  | .ok env => decidable_of_iff
      (if suit.hasDisableTarget env then e.adminDisabled ≠ some false
      else e.adminDisabled ≠ some true ∧ ∀ i < suit.componentCount env,
        ∀ digest ∈ suit.imageDigest env i, ∃ p ∈ e.parts, p.content.bytes.toList = digest)
      (by simp [Applied, h])

theorem SameState.carried_iff {e e' des : Entity} (h : SameState e e') :
    Carried e' des ↔ Carried e des :=
  forall₂_congr fun p _ => (h.contents p.content).symm

theorem SameState.installed_iff {e e' des : Entity} (h : SameState e e') :
    Installed des e' ↔ Installed des e := by
  rw [Installed, Installed, h.carried_iff, h.adminDisabled]

section Pipeline

variable {suit : Suit} {signer : Signer suit} {index : ContentHash → Option ArtifactEntry}
  {req : L1Recipient}

/-- A component is as its L2 declares iff it is as the target wants it. -/
theorem applied_iff_installed {path : String} {des e : Entity} {l2 : Bytes}
    (hids : (des.parts.map (·.id)).Nodup) (hbuild : buildL2 signer index req path des = .ok l2) :
    Applied suit l2 e ↔ Installed des e := by
  rw [Applied, Installed]
  split
  · rename_i hdisabled
    simp only [buildL2, hdisabled, if_true, Except.mapError_eq_ok_iff] at hbuild
    obtain ⟨env, hdecode, htarget, -⟩ := suit.decode_disable hbuild
    simp [hdecode, htarget]
  · rename_i henabled
    obtain ⟨specs, hspecs, himage⟩ := buildImage_of_buildL2 (by simpa using henabled) hbuild
    have hnodup : (specs.map (·.id)).Nodup :=
      nodup_spec_ids hids (hspecs.imp fun p spec hof => hof.1)
    obtain ⟨env, hdecode, htarget, hcount, hcomponent⟩ := suit.decode_image hnodup himage
    -- Each part has its own component in the manifest, which declares the part's content.
    have hdeclared : (∀ i < suit.componentCount env, ∀ digest ∈ suit.imageDigest env i,
        ∃ q ∈ e.parts, q.content.bytes.toList = digest) ↔ Carried e des := by
      have hforall : (∀ p ∈ des.parts, ∃ q ∈ e.parts, q.content = p.content) ↔
          ∀ spec ∈ specs, ∃ q ∈ e.parts, q.content.bytes.toList = spec.digest := by
        refine hspecs.forall_mem_iff fun p spec hof => ?_
        refine exists_congr fun q => and_congr_right fun _ => ?_
        rw [hof.2.1]
        exact ⟨fun heq => by rw [heq],
          fun heq => congrArg ContentHash.mk (Vector.toList_inj.mp heq)⟩
      rw [Carried, hforall, hcount]
      constructor
      · intro h spec hspec
        obtain ⟨i, hi, rfl⟩ := List.getElem_of_mem hspec
        exact h i hi _ (hcomponent i hi).2.2
      · intro h i hi digest hdigest
        obtain rfl := Option.some.inj ((hcomponent i hi).2.2.symm.trans hdigest)
        exact h _ (List.getElem_mem hi)
    simp only [hdecode, Except.ok.injEq, forall_eq', htarget, Bool.false_eq_true, if_false,
      hdeclared]
    exact and_comm

/-- What the tower emits of the components in a report is what is outstanding of them. -/
theorem mem_emittedPaths_iff_outstanding {desired vehicle observed : Tree} {path : String}
    (hreport : ReportOf vehicle observed) (hobserved : observed.containsKey path = true) :
    path ∈ emittedPaths desired (some observed) ↔ Outstanding desired vehicle path := by
  obtain ⟨obs, hobs⟩ := Tree.containsKey_iff.mp hobserved
  obtain ⟨e, he, hsame⟩ := hreport path obs hobs
  have hadmin : observed.adminDisabled path = obs.adminDisabled := Tree.adminDisabled_of_get? hobs
  have houtstanding : Outstanding desired vehicle path ↔ ∃ des, desired.get? path = some des ∧
      (des.disabled = true ∨ des.parts ≠ []) ∧ ¬ Installed des obs := by
    simp [Outstanding, he, hsame.installed_iff]
  rw [houtstanding, mem_emittedPaths]
  refine exists_congr fun des => and_congr_right fun _ => ?_
  rw [l1Class_eq_included_iff, l1Class_eq_disabled_iff, hadmin, ← Bool.not_eq_true
    (entityAgreed observed path des), entityAgreed_iff hobs]
  cases hdisabled : des.disabled with
  | true => simp [Installed, hdisabled]
  | false => simp [Installed, Carried, hdisabled, or_iff_not_imp_right]

end Pipeline

/-! ## Campaigns -/

/-- A campaign: Tower 2 when its request arrives, what the rig and Tower 1 answer, and what comes of
the plan. -/
structure Pass (suit : Suit) (Value : Type) where
  tower : Tower suit Value
  rig : Except Error Tree
  getDevice : String → Except Error (Option Device)
  only : Option (List String)
  /-- The components whose job was completed. -/
  completed : List String
  /-- The vehicle after the campaign. -/
  vehicle : Tree

section Campaigns

variable {suit : Suit} {Value : Type} (storable : Value → Bool) (sha : Sha256) (order : RowOrder)
  (target : ChannelTarget) (deviceId : String)

/-- The jobs of a campaign; a plan that fails has none. -/
def Pass.jobs (t : Pass suit Value) : List FlashJob :=
  match l1FlashPlan suit t.rig t.getDevice (t.tower.hub sha order) target deviceId t.only with
  | .ok (jobs, _, _) => jobs
  | .error _ => []

/-- The tower and the vehicle after a campaign. -/
def Pass.next (_ : Server Value × Tree) (t : Pass suit Value) : Server Value × Tree :=
  (t.tower.server, t.vehicle)

/-- A campaign that starts from a state of the tower and the vehicle. -/
structure PassOf (x : Server Value × Tree) (t : Pass suit Value) : Prop where
  /-- The tower has served other requests since. -/
  server : ∃ changes : List (ChangeStep Value),
    t.tower.server = changes.foldl (Server.next storable sha) x.1
  report : ∀ observed, t.rig = .ok observed → ReportOf x.2 observed
  /-- Each job is completed at most once. -/
  completed : t.completed.Sublist ((t.jobs sha order target deviceId).map (·.componentId))
  applied : ∀ job ∈ t.jobs sha order target deviceId, job.componentId ∈ t.completed →
    ∃ e, t.vehicle.get? job.componentId = some e ∧ Applied suit job.envelope e
  /-- What has no job is left alone. -/
  kept : ∀ path, path ∉ (t.jobs sha order target deviceId).map (·.componentId) →
    t.vehicle.get? path = x.2.get? path

/-- A failed job leaves its component as it was. -/
def RevertsFailed (x : Server Value × Tree) (t : Pass suit Value) : Prop :=
  ∀ path, path ∉ t.completed → t.vehicle.get? path = x.2.get? path

/-- Campaigns as rounds: the tasks are the outstanding components of a tree. -/
def passWorklist (desired : Tree) : Worklist (Server Value × Tree) (Pass suit Value) String where
  next := Pass.next
  Open x path := Outstanding desired x.2 path
  Picked _ t path := path ∈ (t.jobs sha order target deviceId).map (·.componentId)
  completed := (·.completed)

variable {storable sha order target deviceId}

/-- The release is there, and the tree is its tree. -/
def Resolves (order : RowOrder) (x : Server Value) (id : ℤ) (desired : Tree) : Prop :=
  (∃ r ∈ x.committed.releases.vehicleReleases.rows, r.id = id) ∧
    resolve order x.committed.releases id = .ok desired

theorem Resolves.foldl_next {x : Server Value} {id : ℤ} {desired : Tree}
    (h : Resolves order x id desired) (changes : List (ChangeStep Value)) :
    Resolves order (changes.foldl (Server.next storable sha) x) id desired := by
  have hextends := extends_foldl_next storable sha x changes
  refine ⟨?_, (hextends.resolve_eq order h.1).trans h.2⟩
  obtain ⟨r, hr, rfl⟩ := h.1
  exact hextends.vehicle_ids r hr

/-- What a plan for a pinned release does: its jobs are those of an L1 for the tree of the release
and the tree that was observed, one for a component. -/
theorem of_pinned_plan (hempty : ∀ env, suit.decodeEnvelope [] ≠ .ok env)
    {id : Int64} (hpinned : target.vehicleReleaseId = some id) {t : Pass suit Value}
    {desired : Tree} (hdesired : Resolves order t.tower.server id.toInt desired)
    {jobs : List FlashJob} {trustAnchor : Bytes} {observed : Tree}
    (h : l1FlashPlan suit t.rig t.getDevice (t.tower.hub sha order) target deviceId t.only =
      .ok (jobs, trustAnchor, observed)) :
    t.rig = .ok observed ∧ (jobs.map (·.componentId)).Nodup ∧
      (∀ path, path ∈ jobs.map (·.componentId) ↔
        path ∈ emittedPaths desired (some observed) ∧ observed.containsKey path = true ∧
          ∀ allow, t.only = some allow → path ∈ allow) ∧
      ∀ job ∈ jobs, ∃ recipient des, desired.get? job.componentId = some des ∧
        buildL2 t.tower.signer t.tower.index recipient job.componentId des = .ok job.envelope := by
  obtain ⟨hrig, recipient, tree, response, hplan⟩ := of_l1FlashPlan_eq_ok hempty h
  obtain rfl : tree = desired := by
    obtain ⟨v, hrelease, hresolve⟩ := hplan.exists_release
    obtain rfl : v = id.toInt :=
      TargetSelector.release_of_pinned (target.vehicleReleaseId_selector hpinned) hrelease
    exact Except.ok.inj (hresolve.symm.trans hdesired.2)
  have hids := distinctIds_of_resolve hdesired.2
  refine ⟨hrig, nodup_jobs hids hplan.assembled hplan.dispatched,
    fun path => mem_jobs_iff hids hplan.assembled hplan.dispatched, fun job hjob => ?_⟩
  obtain ⟨des, hdes, hbuild⟩ := buildL2_of_mem_jobs hids hplan.assembled hplan.dispatched hjob
  exact ⟨recipient, des, hdes, hbuild⟩

/-- A component has a job only if a plan was made and has one. -/
theorem exists_plan_of_mem_jobs {t : Pass suit Value} {path : String}
    (h : path ∈ (t.jobs sha order target deviceId).map (·.componentId)) :
    ∃ jobs trustAnchor observed, l1FlashPlan suit t.rig t.getDevice (t.tower.hub sha order) target
      deviceId t.only = .ok (jobs, trustAnchor, observed) ∧
        t.jobs sha order target deviceId = jobs := by
  unfold Pass.jobs at h ⊢
  split at h
  · rename_i jobs trustAnchor observed hplan
    exact ⟨jobs, trustAnchor, observed, hplan, rfl⟩
  · cases h

section Steps

variable {id : Int64} {desired : Tree} {x : Server Value × Tree} {t : Pass suit Value}
  (hempty : ∀ env, suit.decodeEnvelope [] ≠ .ok env) (hpinned : target.vehicleReleaseId = some id)

include hempty hpinned

/-- Only what is outstanding has a job. -/
theorem PassOf.outstanding_of_mem_jobs (h : PassOf storable sha order target deviceId x t)
    (hdesired : Resolves order t.tower.server id.toInt desired) {path : String}
    (hpath : path ∈ (t.jobs sha order target deviceId).map (·.componentId)) :
    Outstanding desired x.2 path := by
  obtain ⟨jobs, trustAnchor, observed, hplan, hjobs⟩ := exists_plan_of_mem_jobs hpath
  obtain ⟨hrig, -, hmem, -⟩ := of_pinned_plan hempty hpinned hdesired hplan
  rw [hjobs, hmem] at hpath
  exact (mem_emittedPaths_iff_outstanding (h.report observed hrig) hpath.2.1).mp hpath.1

/-- What is completed is not outstanding any more. -/
theorem PassOf.not_outstanding_of_completed (h : PassOf storable sha order target deviceId x t)
    (hdesired : Resolves order t.tower.server id.toInt desired) {path : String}
    (hpath : path ∈ t.completed) : ¬ Outstanding desired t.vehicle path := by
  rintro ⟨des, e, hdes, he, -, hnot⟩
  -- The component is as the job's envelope declares, and that is the L2 for the target.
  obtain ⟨job, hjob, rfl⟩ := List.mem_map.mp (h.completed.subset hpath)
  obtain ⟨jobs, trustAnchor, observed, hplan, hjobs⟩ :=
    exists_plan_of_mem_jobs (List.mem_map_of_mem hjob)
  obtain ⟨-, -, -, hbuilt⟩ := of_pinned_plan hempty hpinned hdesired hplan
  obtain ⟨recipient, des', hdes', hbuild⟩ := hbuilt job (hjobs ▸ hjob)
  obtain ⟨e', he', happlied⟩ := h.applied job hjob hpath
  obtain rfl : des' = des := Option.some.inj (hdes'.symm.trans hdes)
  obtain rfl : e' = e := Option.some.inj (he'.symm.trans he)
  have hids := distinctIds_of_resolve hdesired.2 _ _ hdes
  exact hnot ((applied_iff_installed hids hbuild).mp happlied)

/-- No component is completed twice by one campaign. -/
theorem PassOf.nodup_completed (h : PassOf storable sha order target deviceId x t)
    (hdesired : Resolves order t.tower.server id.toInt desired) : t.completed.Nodup := by
  refine h.completed.nodup ?_
  unfold Pass.jobs
  split
  · rename_i jobs trustAnchor observed hplan
    exact (of_pinned_plan hempty hpinned hdesired hplan).2.1
  · exact List.nodup_nil

/-- The step lemma: a campaign for a pinned release does its part, and leaves the release as it is.
-/
theorem PassOf.meets (h : PassOf storable sha order target deviceId x t)
    (hdesired : Resolves order x.1 id.toInt desired) :
    (passWorklist sha order target deviceId desired).Meets x t ∧
      Resolves order t.tower.server id.toInt desired := by
  have hserver : Resolves order t.tower.server id.toInt desired := by
    obtain ⟨changes, hchanges⟩ := h.server
    rw [hchanges]
    exact hdesired.foldl_next changes
  refine ⟨?_, hserver⟩
  exact {
    open_of_picked := fun _ hpath => h.outstanding_of_mem_jobs hempty hpinned hserver hpath
    picked_of_completed := fun _ hpath => h.completed.subset hpath
    nodup := h.nodup_completed hempty hpinned hserver
    closed := fun _ hpath => h.not_outstanding_of_completed hempty hpinned hserver hpath
    kept := fun path hpath => by
      simp only [passWorklist, Pass.next, Outstanding, h.kept path hpath] }

/-- The campaigns of a run do their part. -/
theorem allMeet_of_passes {passes : List (Pass suit Value)}
    (h : Trace.AllMeet Pass.next (PassOf storable sha order target deviceId) x passes)
    (hdesired : Resolves order x.1 id.toInt desired) :
    let W := passWorklist sha order target deviceId desired
    Trace.AllMeet W.next W.Meets x passes :=
  h.imp_of_invariant (P := fun x => Resolves order x.1 id.toInt desired) hdesired
    fun _ _ hx ht => ht.meets hempty hpinned hx

end Steps

/-! ## Runs of campaigns -/

/-- A release of two components, `vm1` with a kernel and `vm2` with a root file system. -/
def stagedDb : Db Unit where
  componentReleases := ⟨[⟨1, "vm1", "vm", "1.0", 0, none⟩, ⟨2, "vm2", "vm", "1.0", 1, none⟩],
    by decide⟩
  parts := ⟨[⟨1, "kernel", "file", sampleInner.toPrefixed⟩,
    ⟨2, "rootfs", "file", sampleInner.toPrefixed⟩], by decide⟩
  vehicleReleases := ⟨[⟨1, "rig", "1", 2, none, none⟩], by decide⟩
  members := ⟨[⟨1, 1, false⟩, ⟨1, 2, false⟩], by decide⟩
  componentSeq := 3
  vehicleSeq := 2
  clock := (· + 3)
  componentIds := by decide
  vehicleIds := by decide
  partTexts := by decide +kernel
  partRelease := by decide
  memberVehicle := by decide
  memberComponent := by decide

/-- A server with this release, which is for the rig and for a bench. -/
@[irreducible] def stagedServer : Server Unit where
  committed :=
    { (Catalog.empty sampleClocks : Catalog Unit) with
      releases := stagedDb
      releaseTargets := ⟨[⟨1, "rig", "arm64"⟩, ⟨1, "bench", "amd64"⟩], by decide⟩
      targetTexts := by decide +kernel
      targetRelease := by simp [stagedDb]
      channelRelease := by simp [Catalog.empty] }
  pending := none

/-- A vehicle with these contents of `vm1` and `vm2`. -/
def stagedVehicle (kernel rootfs : ContentHash) : Tree :=
  .ofList [("vm1", { parts := [⟨"file", "boot.img", kernel⟩] }),
    ("vm2", { parts := [⟨"file", "root.img", rootfs⟩] })]

/-- A campaign for what the rig reports, and what it completes. -/
def stagedPass (rig : Except Error Tree) (completed : List String) (vehicle : Tree) :
    Pass .framed Unit where
  tower := { rolloutTower with server := stagedServer }
  rig
  getDevice := rolloutDevice
  only := none
  completed
  vehicle

/-- The second campaign of the sample: the job of `vm1` is completed, the one of `vm2` fails. -/
def firstStage : Pass .framed Unit :=
  stagedPass (.ok (stagedVehicle oldKernel oldKernel)) ["vm1"] (stagedVehicle sampleInner oldKernel)

/-- The third campaign of the sample completes `vm2`. -/
def secondStage : Pass .framed Unit :=
  stagedPass (.ok (stagedVehicle sampleInner oldKernel)) ["vm2"]
    (stagedVehicle sampleInner sampleInner)

/-- The campaign after the sample has nothing to do. -/
def lastStage : Pass .framed Unit :=
  stagedPass (.ok (stagedVehicle sampleInner sampleInner)) []
    (stagedVehicle sampleInner sampleInner)

/-- The first campaign of the sample does not reach the rig. -/
def stages : List (Pass .framed Unit) :=
  [stagedPass (.error (.sovd (.http "connection refused"))) [] (stagedVehicle oldKernel oldKernel),
    firstStage, secondStage]

/-- Two vehicles of the sample agree on a component that has the same contents in both. -/
theorem get?_stagedVehicle {kernel rootfs kernel' rootfs' : ContentHash} {path : String}
    (hkernel : path = "vm1" → kernel = kernel') (hrootfs : path = "vm2" → rootfs = rootfs') :
    (stagedVehicle kernel rootfs).get? path = (stagedVehicle kernel' rootfs').get? path := by
  ext e
  rw [stagedVehicle, stagedVehicle, Tree.get?_ofList (by simp), Tree.get?_ofList (by simp)]
  grind

/-- The release of the sample resolves. -/
theorem exists_stagedTree :
    (∃ r ∈ stagedServer.committed.releases.vehicleReleases.rows, r.id = (1 : Int64).toInt) ∧
      ∃ desired, resolvedTree .insertion stagedServer (1 : Int64).toInt = .ok desired := by
  have hok : (resolvedTree .insertion stagedServer (1 : Int64).toInt).map (fun _ => ()) =
      .ok () := by
    decide +kernel
  obtain ⟨desired, hdesired, -⟩ := Except.map_eq_ok_iff.mp hok
  exact ⟨by decide +kernel, desired, hdesired⟩

/-- The jobs of the campaigns that reach the rig, and what they declare. -/
theorem stages_plans :
    (firstStage.jobs (.ofDigests []) .insertion rolloutTarget "device-1").map (·.componentId) =
        ["vm1", "vm2"] ∧
      (secondStage.jobs (.ofDigests []) .insertion rolloutTarget "device-1").map (·.componentId) =
        ["vm2"] ∧
      ∀ t ∈ [firstStage, secondStage],
        ∀ job ∈ t.jobs (.ofDigests []) .insertion rolloutTarget "device-1",
          job.componentId ∈ t.completed →
            ∃ e ∈ t.vehicle.get? job.componentId, Applied .framed job.envelope e := by
  decide +kernel

theorem passOf_stagedPass {vehicle after : Tree} {completed : List String} :
    let t := stagedPass (.ok vehicle) completed after
    let jobs := t.jobs (.ofDigests []) .insertion rolloutTarget "device-1"
    completed.Sublist (jobs.map (·.componentId)) →
      (∀ job ∈ jobs, job.componentId ∈ completed →
        ∃ e ∈ after.get? job.componentId, Applied .framed job.envelope e) →
      (∀ path, path ∉ jobs.map (·.componentId) → after.get? path = vehicle.get? path) →
      PassOf (fun _ => true) (.ofDigests []) .insertion rolloutTarget "device-1"
        (stagedServer, vehicle) t := by
  intro t jobs hcompleted happlied hkept
  refine ⟨⟨[], List.foldl_nil.symm⟩, ?_, hcompleted, happlied, hkept⟩
  rintro observed ⟨⟩
  exact fun _ e he => ⟨e, he, fun _ => Iff.rfl, rfl⟩

theorem passOf_stages :
    Trace.AllMeet Pass.next
      (PassOf (fun _ => true) (.ofDigests []) .insertion rolloutTarget "device-1")
      (stagedServer, stagedVehicle oldKernel oldKernel) stages := by
  obtain ⟨hfirst, hsecond, happlied⟩ := stages_plans
  refine ⟨⟨⟨[], List.foldl_nil.symm⟩, ?_, List.nil_sublist _, ?_, fun _ _ => rfl⟩,
    passOf_stagedPass ?_ (happlied firstStage (by simp)) ?_,
    passOf_stagedPass ?_ (happlied secondStage (by simp)) ?_, trivial⟩
  · rintro observed ⟨⟩
  · simp [stagedPass]
  · show ["vm1"].Sublist ((firstStage.jobs _ _ _ _).map _)
    rw [hfirst]
    decide
  · intro path hpath
    change path ∉ (firstStage.jobs _ _ _ _).map _ at hpath
    rw [hfirst] at hpath
    apply get?_stagedVehicle <;> grind
  · show ["vm2"].Sublist ((secondStage.jobs _ _ _ _).map _)
    rw [hsecond]
  · intro path hpath
    change path ∉ (secondStage.jobs _ _ _ _).map _ at hpath
    rw [hsecond] at hpath
    apply get?_stagedVehicle <;> grind

end Campaigns

end Orchestrator
