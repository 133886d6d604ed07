import SumoProvision.Orchestrator.L1Plan

/-!
# The preview and the push

A campaign resolves its target twice. `apply_plan` asks the tower for the desired tree and assesses
it, and an operator decides on what it shows; later `l1_flash_plan` sends the same target to the L1
endpoint, which resolves it again. In between the tower serves other requests, and a channel may be
moved.

`push_follows_preview` says when the two agree: if the target still names the release that it named,
which a pinned one always does, the push is for the tree that was previewed, and has jobs only for
components that the assessment listed, unless the rig has changed its report of them.
-/

open Wire

/-! ## The endpoints -/

namespace SoftwareTower

variable {Value : Type}

/-- `GET /channel-targets/tree`. -/
def channelTargetTree (sha : Sha256) (sel : TargetSelector) :
    Prog (catalogSql Value) AppError Tree := do
  let tree ← resolveTarget sha sel
  Prog.lift (tree.elim (.error .notFound) .ok)

/-- `GET /admin/artifacts/{inner}`. -/
def artifactExists (index : ContentHash → Option ArtifactEntry) (inner : ContentHash) :
    Except AppError ArtifactRef :=
  match index inner with
  | some e => .ok e.ref
  | none => .error .notFound

/-- The release that a selector names is there. -/
theorem TargetSelector.exists_row_of_release {sel : TargetSelector} {c : Catalog Value} {v : ℤ}
    (h : sel.release c = some v) : ∃ r ∈ c.releases.vehicleReleases.rows, r.id = v := by
  unfold TargetSelector.release at h
  split at h
  · simp only [Option.ite_none_right_eq_some, Option.some.injEq] at h
    obtain ⟨hfound, rfl⟩ := h
    obtain ⟨r, hr⟩ := Option.isSome_iff_exists.mp hfound
    exact ⟨r, Db.vehicleRelease_eq_some_iff.mp hr⟩
  · -- The row of a channel refers to a release.
    unfold Catalog.channelVehicle at h
    split at h
    · obtain ⟨t, ht, rfl⟩ := Option.map_eq_some_iff.mp h
      exact c.channelRelease t (Catalog.findTarget_eq_some_iff.mp ht).1
    · simp only [Option.ite_none_right_eq_some] at h
      obtain ⟨t, ht, rfl⟩ := List.mem_map.mp (List.mem_of_head? h.2)
      exact c.channelRelease t (List.mem_of_mem_filter ht)
  · cases h

end SoftwareTower

namespace Orchestrator

open SoftwareTower IdentityTower

/-! ## The tower in a preview -/

section Hub

variable {suit : Suit} {Value : Type} (sha : Sha256) (order : RowOrder)

/-- The client's view of a reply: 404 is no result, any other error status an error. -/
def Tower.found {α : Type} (tower : Tower suit Value) :
    Except (Stop SoftwareTower.AppError) α → Except Error (Option α)
  | .ok a => .ok (some a)
  | .error (.failed e) =>
    if e.status = 404 then .ok none else .error (.client (tower.clientError (some e.status)))
  | .error .dropped => .error (.client (tower.clientError none))

/-- The tree of a selector, sent as JSON and decoded by the client. -/
def Tower.tree (tower : Tower suit Value) (sel : TargetSelector) : Except Error (Option Tree) := do
  match ← tower.found ((channelTargetTree sha sel).run (catalogDb order) tower.faults
    tower.server).1 with
  | none => return none
  | some tree =>
    match Tree.fromJson tree.toJson with
    | some tree => return some tree
    | none => .error (.client (tower.clientError none))

/-- The tower as a preview sees it. -/
def Tower.previewHub (tower : Tower suit Value) : Hub where
  vehicleReleaseTree id treeHash := tower.tree sha order ⟨none, none, none, some id.toInt, treeHash⟩
  channelTargetTree channel device architecture :=
    tower.tree sha order ⟨some channel, device, architecture, none, none⟩
  artifactExists inner := tower.found ((artifactExists tower.index inner).mapError .failed)

end Hub

/-! ## The previewed tree -/

section Preview

variable {suit : Suit} {Value : Type} {storable : Value → Bool} {sha : Sha256} {order : RowOrder}
  {tower tower' : Tower suit Value} {rig rig' : Except Error Tree}
  {getDevice : String → Except Error (Option Device)} {target : ChannelTarget} {deviceId : String}
  {only : Option (List String)}

theorem of_tree_eq_ok {sel : TargetSelector} {tree : Tree}
    (h : tower.tree sha order sel = .ok (some tree)) :
    ∃ rest server, (channelTargetTree sha sel).run (catalogDb order) tower.faults tower.server =
      (.ok tree, rest, server) := by
  rcases hrun : (channelTargetTree sha sel).run (catalogDb order) tower.faults tower.server with
    ⟨(e | _) | tree', rest, server⟩
  all_goals rw [Tower.tree, hrun] at h
  · rw [Tower.found] at h
    split at h <;> cases h
  · cases h
  · -- The tree arrives as it was sent.
    simp only [Tower.found, Except.ok_bind, Tree.fromJson_toJson, Except.pure_eq_ok_iff] at h
    obtain rfl := Option.some.inj h
    exact ⟨rest, server, rfl⟩

/-- The desired tree of a preview is the one of the release that the target names. -/
theorem exists_release_of_desired {tree : Tree}
    (h : (tower.previewHub sha order).desired target = .ok tree) :
    ∃ v, target.selector.release tower.server.committed = some v ∧
      resolve order tower.server.committed.releases v = .ok tree := by
  -- Either way the preview asks for the tree of the selector, and takes none for an error.
  have htree : tower.tree sha order target.selector = .ok (some tree) := by
    have hfound : ∀ {found : Option Tree}, (match found with
        | some tree => pure tree
        | none => .error (.channelNotFound target.label) : Except Error Tree) = .ok tree →
          found = some tree := by
      rintro (_ | tree') heq
      · cases heq
      · exact congrArg some (Except.pure_eq_ok_iff.mp heq)
    unfold Hub.desired at h
    cases hid : target.vehicleReleaseId with
    | some id =>
      simp only [hid] at h
      obtain ⟨found, hanswer, h⟩ := Except.bind_eq_ok_iff.mp h
      rw [ChannelTarget.selector, hid]
      exact hfound h ▸ hanswer
    | none =>
      simp only [hid] at h
      obtain ⟨found, hanswer, h⟩ := Except.bind_eq_ok_iff.mp h
      rw [ChannelTarget.selector, hid]
      exact hfound h ▸ hanswer
  obtain ⟨rest, server, hrun⟩ := of_tree_eq_ok htree
  obtain ⟨found, _, _, hresolve, hfound⟩ := Prog.run_bind_eq_ok_iff.mp hrun
  obtain ⟨hfound, -, -⟩ := Prog.run_lift_eq_ok_iff.mp hfound
  cases found with
  | none => cases hfound
  | some tree' =>
    obtain rfl : tree' = tree := Except.ok.inj hfound
    exact exists_release_of_resolveTarget hresolve

/-- The target names the same release for the second tower. -/
def Unmoved (target : ChannelTarget) (tower tower' : Tower suit Value) : Prop :=
  target.selector.release tower'.server.committed = target.selector.release tower.server.committed

/-- A pinned target names its release for ever. -/
theorem unmoved_of_pinned {id : Int64} (hpinned : target.vehicleReleaseId = some id)
    (hfound : target.selector.release tower.server.committed ≠ none)
    (hlater : ∃ changes : List (ChangeStep Value),
      tower'.server = changes.foldl (Server.next storable sha) tower.server) :
    Unmoved target tower tower' := by
  obtain ⟨changes, hchanges⟩ := hlater
  obtain ⟨v, hv⟩ := Option.ne_none_iff_exists'.mp hfound
  obtain ⟨r, hr, rfl⟩ := TargetSelector.exists_row_of_release hv
  obtain ⟨r', hr', hid⟩ :=
    (extends_foldl_next storable sha tower.server changes).vehicle_ids r hr
  have hselector := target.vehicleReleaseId_selector hpinned
  have hrow : (tower'.server.committed.releases.vehicleRelease id.toInt).isSome = true := by
    rw [Db.vehicleRelease, List.find?_isSome, hchanges]
    refine ⟨r', hr', ?_⟩
    rw [hid, TargetSelector.release_of_pinned hselector hv]
    simp
  rw [Unmoved, hv, TargetSelector.release_of_pinned hselector hv, TargetSelector.release, hselector]
  exact if_pos hrow

/-- The tree of a push is the one that was previewed. -/
theorem tree_eq_of_preview {observed desired tree : Tree} {jobs : List FlashJob}
    {recipient : L1Recipient} {response : L1Response}
    (hpreview : (tower.previewHub sha order).desired target = .ok desired)
    (hlater : ∃ changes : List (ChangeStep Value),
      tower'.server = changes.foldl (Server.next storable sha) tower.server)
    (hunmoved : Unmoved target tower tower')
    (hplan : PlanOf sha order tower' getDevice target deviceId only observed jobs recipient tree
      response) : tree = desired := by
  obtain ⟨v, hv, hdesired⟩ := exists_release_of_desired hpreview
  obtain ⟨v', hv', htree⟩ := hplan.exists_release
  rw [hunmoved, hv] at hv'
  obtain rfl := Option.some.inj hv'
  -- The release has kept its tree since.
  obtain ⟨changes, hchanges⟩ := hlater
  have hkept := (extends_foldl_next storable sha tower.server changes).resolve_eq order
    (TargetSelector.exists_row_of_release hv)
  rw [hchanges, hkept, hdesired] at htree
  exact (Except.ok.inj htree).symm

/-- What the assessment says of a component depends on the observed trees only by what they have of
it. -/
theorem mem_components_congr {observed observed' desired : Tree} {path : String}
    (h : observed'.get? path = observed.get? path) :
    path ∈ (assessTree observed' desired).components ↔
      path ∈ (assessTree observed desired).components := by
  have hadmin : observed'.adminDisabled path = observed.adminDisabled path := by
    rw [Tree.adminDisabled, Tree.adminDisabled, h]
  rw [mem_components_iff, mem_components_iff, h, hadmin]

/-- A push after a preview of the same target is for the tree that was previewed. -/
theorem planOf_of_preview (hempty : ∀ env, suit.decodeEnvelope [] ≠ .ok env)
    {plan : ApplyPlan} {jobs : List FlashJob} {trustAnchor : Bytes} {observed' : Tree}
    (hpreview : applyPlan rig (tower.previewHub sha order) target none = .ok plan)
    (hlater : ∃ changes : List (ChangeStep Value),
      tower'.server = changes.foldl (Server.next storable sha) tower.server)
    (hnames : target.vehicleReleaseId = none → Unmoved target tower tower')
    (hpush : l1FlashPlan suit rig' getDevice (tower'.hub sha order) target deviceId only =
      .ok (jobs, trustAnchor, observed')) :
    ∃ observed desired, rig = .ok observed ∧ rig' = .ok observed' ∧
      plan.assessment = assessTree observed desired ∧ desired.DistinctIds ∧
      ∃ recipient response, PlanOf sha order tower' getDevice target deviceId only observed' jobs
        recipient desired response := by
  simp only [applyPlan, Except.bind_eq_ok_iff, Except.pure_eq_ok_iff] at hpreview
  obtain ⟨observed, hrig, desired, hdesired, components, -, rfl⟩ := hpreview
  have hunmoved : Unmoved target tower tower' := by
    cases hid : target.vehicleReleaseId with
    | none => exact hnames hid
    | some id =>
      obtain ⟨v, hv, -⟩ := exists_release_of_desired hdesired
      exact unmoved_of_pinned hid (by simp [hv]) hlater
  obtain ⟨hrig', recipient, tree, response, hplan⟩ := of_l1FlashPlan_eq_ok hempty hpush
  obtain rfl : tree = desired := tree_eq_of_preview hdesired hlater hunmoved hplan
  obtain ⟨v, -, hv⟩ := hplan.exists_release
  exact ⟨observed, tree, hrig, hrig', rfl, distinctIds_of_resolve hv, recipient, response, hplan⟩

/-- The jobs of a plan are those of the components that the tower emits for its tree, that are
advertised and that the allowlist has. -/
theorem PlanOf.mem_jobs {observed tree : Tree} {jobs : List FlashJob} {recipient : L1Recipient}
    {response : L1Response} (hids : tree.DistinctIds)
    (h : PlanOf sha order tower getDevice target deviceId only observed jobs recipient tree
      response) {path : String} :
    path ∈ jobs.map (·.componentId) ↔
      path ∈ emittedPaths tree (some observed) ∧ observed.containsKey path = true ∧
        ∀ allow, only = some allow → path ∈ allow :=
  mem_jobs_iff hids h.assembled h.dispatched

/-- A channel is pointed at the release. -/
def rolloutMove : ChangeStep Unit :=
  (.setTarget ⟨"stable", "rig", "arm64", 1⟩, [])

/-- The sample tower after the move. -/
def movedTower : Tower .framed Unit :=
  { rolloutTower with server := rolloutServer.next (fun _ => true) (.ofDigests []) rolloutMove }

end Preview

end Orchestrator
