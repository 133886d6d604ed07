import SumoProvision.SoftwareTower.Immutability

/-!
# Pinned targets

An L1 request names its target by a channel, or pins a vehicle release. A pinned request is
authorised by `vehicle_release_targets`, in which every move of a channel leaves a row.

`pinned_target_iff_moved` says, for every sequence of requests, that a pinned request is authorised
iff a channel was moved to its release for its device and architecture before, no matter where the
channels point now, and that for the row of a channel the pinned request and the channel request
resolve to one tree. A move that fails has to roll back for this (`RollsBack`): where the reply to
its `COMMIT` is lost, its row is there although nobody was told so.
-/

namespace SoftwareTower

open Wire

variable {Value : Type}

/-! ## Definitions -/

/-- The pinned request passes `release_matches_target`. -/
def MatchesTarget (x : Server Value) (vehicleReleaseId : ℤ) (device architecture : String) : Prop :=
  ((releaseMatchesTarget vehicleReleaseId device architecture).run
    (catalogDb .insertion) [] x).1 = .ok true

/-- The tree that an L1 request is authorised for. -/
def Server.l1 (sha : Sha256) (x : Server Value) (req : L1Target) : Except (Stop AppError) Tree :=
  ((l1Tree sha req).run (catalogDb .insertion) [] x).1

/-- Some request of the sequence moved a channel to the release for the pair, and succeeded. -/
def MovedBefore (storable : Value → Bool) (sha : Sha256) (clocks : Clocks)
    (steps : List (ChangeStep Value)) (target : VehicleReleaseTarget) : Prop :=
  ∃ first req faults ref, first ++ [(.setTarget req, faults)] <+: steps ∧
    (first.foldl (Server.next storable sha) (.empty clocks)).respondTarget sha req faults =
      .ok ref ∧
    req.releaseTarget = target

/-- A request to move a channel that fails has rolled its transaction back: the reply to its commit
is not lost. It may meet every other fault. -/
def RollsBack (sha : Sha256) (x : Server Value) : ChangeStep Value → Prop
  | (.setTarget req, faults) => RepliesCommit .insertion (setChannelTarget sha req) faults x
  | _ => True

instance (sha : Sha256) (x : Server Value) (step : ChangeStep Value) :
    Decidable (RollsBack sha x step) :=
  match step with
  | (.setTarget req, faults) =>
    inferInstanceAs (Decidable ((setChannelTarget sha req).Along (catalogDb .insertion)
      CommitReplied faults x))
  | (.component _, _) | (.vehicle _, _) => .isTrue trivial

/-! ## The history -/

section

variable {storable : Value → Bool} {sha : Sha256} {clocks : Clocks}

theorem movedBefore_append_singleton_iff {steps : List (ChangeStep Value)}
    {step : ChangeStep Value} {target : VehicleReleaseTarget} :
    MovedBefore storable sha clocks (steps ++ [step]) target ↔
      MovedBefore storable sha clocks steps target ∨
        ∃ req faults ref, step = (.setTarget req, faults) ∧
          (steps.foldl (Server.next storable sha) (.empty clocks)).respondTarget sha req faults =
            .ok ref ∧
          req.releaseTarget = target := by
  constructor
  · rintro ⟨first, req, faults, ref, hprefix, hresponse, htarget⟩
    rcases List.prefix_concat_iff.mp hprefix with heq | hprefix
    · -- The request is the last one.
      obtain ⟨rfl, hstep⟩ := List.append_inj' heq rfl
      exact .inr ⟨req, faults, ref, (List.singleton_inj.mp hstep).symm, hresponse, htarget⟩
    · exact .inl ⟨first, req, faults, ref, hprefix, hresponse, htarget⟩
  · rintro (⟨first, req, faults, ref, hprefix, h⟩ | ⟨req, faults, ref, rfl, h⟩)
    · exact ⟨first, req, faults, ref, hprefix.trans (List.prefix_append _ _), h⟩
    · exact ⟨steps, req, faults, ref, List.prefix_refl _, h⟩

/-- The rows of the history are the moves that succeeded. -/
theorem mem_releaseTargets_iff {steps : List (ChangeStep Value)}
    (hsteps : Trace.AllMeet (Server.next storable sha) (RollsBack sha) (.empty clocks) steps)
    (target : VehicleReleaseTarget) :
    target ∈ (steps.foldl (Server.next storable sha)
        (.empty clocks)).committed.releaseTargets.rows ↔
      MovedBefore storable sha clocks steps target := by
  -- The induction is on the last request: a row is there already, or this request is its move.
  induction steps using List.reverseRecOn with
  | nil => simp [MovedBefore, Server.empty, Catalog.empty]
  | append_singleton steps step ih =>
    obtain ⟨hbefore, hstep, -⟩ := Trace.allMeet_append.mp hsteps
    rw [movedBefore_append_singleton_iff, ← ih hbefore, List.foldl_append, List.foldl_cons,
      List.foldl_nil]
    rcases next_cases storable sha (steps.foldl (Server.next storable sha) (.empty clocks)) step
      with hx | ⟨req, faults, tree, rfl, hx⟩
    · rw [hx.releaseTargets]
      refine ⟨.inl, ?_⟩
      rintro (hmem | ⟨req, faults, ref, hstep', hresponse, -⟩)
      · exact hmem
      · obtain ⟨e, herror⟩ := hx.response req faults hstep'
        rw [hresponse] at herror
        cases herror
    · rw [hx.pointed.releaseTargets]
      apply or_congr_right
      constructor
      · rintro rfl
        rcases hx.response with ⟨ref, hresponse⟩ | hlost
        · exact ⟨req, faults, ref, rfl, hresponse, rfl⟩
        · -- The row is there without an answer only if the reply to the commit was lost.
          exact absurd hstep hlost
      · rintro ⟨_, _, ref, heq, -, htarget⟩
        cases heq
        exact htarget.symm

/-- Every channel row has its pair in the history. -/
def TargetsRecorded (x : Server Value) : Prop :=
  ∀ t ∈ x.committed.channelTargets.rows,
    ⟨t.vehicleReleaseId, t.device, t.architecture⟩ ∈ x.committed.releaseTargets.rows

theorem TargetsRecorded.next {x : Server Value} (h : TargetsRecorded x) (step : ChangeStep Value) :
    TargetsRecorded (x.next storable sha step) := by
  rcases next_cases storable sha x step with hx | ⟨req, faults, tree, -, hx⟩
  · rw [TargetsRecorded, hx.channelTargets, hx.releaseTargets]
    exact h
  · intro t ht
    rw [hx.pointed.releaseTargets]
    rcases hx.pointed.channelTargets t ht with ht | ⟨time, rfl⟩
    · exact .inl (h t ht)
    · exact .inr rfl

theorem targetsRecorded_foldl_next (steps : List (ChangeStep Value)) :
    TargetsRecorded (steps.foldl (Server.next storable sha) (.empty clocks)) := by
  have hrun : ∀ x : Server Value, TargetsRecorded x →
      TargetsRecorded (steps.foldl (Server.next storable sha) x) := by
    induction steps with
    | nil => exact fun x hx => hx
    | cons step steps ih => exact fun x hx => ih _ (hx.next step)
  exact hrun (.empty clocks) (by simp [TargetsRecorded, Server.empty, Catalog.empty])

end

/-! ## The two requests -/

section

variable {sha : Sha256} {x : Server Value}

theorem run_releaseMatchesTarget {target : VehicleReleaseTarget} (h : target.NulFree) :
    (releaseMatchesTarget target.vehicleReleaseId target.device target.architecture).run
      (catalogDb .insertion) [] x =
      (.ok (decide (target ∈ x.committed.releaseTargets.rows)), [], x) := by
  apply run_perform_nil
  rw [exec_releaseTargetExists, Server.read_eq_ok_iff]
  exact ⟨by simpa using And.intro h.1 h.2, rfl, rfl⟩

theorem matchesTarget_iff {target : VehicleReleaseTarget} :
    MatchesTarget x target.vehicleReleaseId target.device target.architecture ↔
      target ∈ x.committed.releaseTargets.rows := by
  constructor
  · intro h
    have hrun : (releaseMatchesTarget target.vehicleReleaseId target.device
        target.architecture).run (catalogDb .insertion) [] x = (.ok true, _, _) := Prod.ext h rfl
    obtain ⟨-, hmem, -⟩ := of_run_perform_eq_ok hrun (exec_releaseTargetExists .insertion x _)
    exact of_decide_eq_true (Except.ok.inj hmem)
  · intro hmem
    rw [MatchesTarget, run_releaseMatchesTarget (x.committed.targetTexts target hmem)]
    exact congrArg Except.ok (decide_eq_true hmem)

theorem run_resolveMembersToTree_of_resolved {v : ℤ} {tree : Tree}
    (h : resolvedTree .insertion x v = .ok tree) :
    (resolveMembersToTree v).run (catalogDb .insertion) [] x = (.ok tree, [], x) := by
  rw [resolvedTree_eq] at h
  rw [run_resolveMembersToTree, h]

/-- A request that is authorised, selects a tree and expects it. -/
theorem l1_of_selectTree {req : L1Target} {tree : Tree}
    (hauthorize : (authorizePinned req).run (catalogDb .insertion) [] x = (.ok (), [], x))
    (hselect : (selectTree ⟨req.channel, some req.device, some req.architecture,
      req.vehicleReleaseId, req.treeHash⟩).run (catalogDb .insertion) [] x =
        (.ok (some tree), [], x))
    (hexpected : ∀ h ∈ req.treeHash, h = treeHash sha tree) : x.l1 sha req = .ok tree := by
  have hcheck : checkTreeHash sha req.treeHash (some tree) = .ok (some tree) := by
    cases hreq : req.treeHash with
    | none => rfl
    | some h => exact if_pos (hexpected h hreq).symm
  rw [Server.l1, l1Tree, Prog.run_bind_of_ok hauthorize, resolveTarget, Prog.run_bind,
    Prog.run_bind_of_ok hselect, hcheck]
  rfl

/-- A pinned request that is in the history and expects the tree of its release. -/
theorem l1_pinned (target : VehicleReleaseTarget) {tree : Tree} (channel : Option String)
    (hmem : target ∈ x.committed.releaseTargets.rows)
    (htree : resolvedTree .insertion x target.vehicleReleaseId = .ok tree) :
    x.l1 sha ⟨channel, some target.vehicleReleaseId, some (treeHash sha tree), target.device,
      target.architecture⟩ = .ok tree := by
  have hmatches := run_releaseMatchesTarget (x := x) (x.committed.targetTexts target hmem)
  rw [decide_eq_true hmem] at hmatches
  have hexists : (catalogDb .insertion).exec (.vehicleExists target.vehicleReleaseId) x =
      (.ok true, x) := by
    obtain ⟨r, hr, hid⟩ := x.committed.targetRelease target hmem
    have hfound : (x.committed.releases.vehicleRelease target.vehicleReleaseId).isSome = true := by
      rw [Db.vehicleRelease, List.find?_isSome]
      exact ⟨r, hr, by simpa using hid⟩
    rw [exec_vehicleExists, Server.read_eq_ok_iff, hfound]
    exact ⟨by simp, rfl, rfl⟩
  have hauthorize : (authorizePinned ⟨channel, some target.vehicleReleaseId,
      some (treeHash sha tree), target.device, target.architecture⟩).run (catalogDb .insertion) []
        x = (.ok (), [], x) := Prog.run_bind_of_ok hmatches _
  have hselect : (selectTree ⟨channel, some target.device, some target.architecture,
      some target.vehicleReleaseId, some (treeHash sha tree)⟩).run (catalogDb .insertion) [] x =
        (.ok (some tree), [], x) :=
    (Prog.run_bind_of_ok (run_perform_nil hexists) _).trans
      (Prog.run_bind_of_ok (run_resolveMembersToTree_of_resolved htree) _)
  exact l1_of_selectTree hauthorize hselect (by simp)

/-- A request for the pair of a channel row. -/
theorem l1_channel {t : ChannelTarget} {tree : Tree} {expected : Option String}
    (hmem : t ∈ x.committed.channelTargets.rows)
    (htree : resolvedTree .insertion x t.vehicleReleaseId = .ok tree)
    (hexpected : ∀ h ∈ expected, h = treeHash sha tree) :
    x.l1 sha ⟨some t.channel, none, expected, t.device, t.architecture⟩ = .ok tree := by
  obtain ⟨hchannel, hdevice, harchitecture, -⟩ := x.committed.channelTexts t hmem
  have hfind : x.committed.findTarget t.channel t.device t.architecture = some t :=
    Catalog.findTarget_eq_some_iff.mpr ⟨hmem, rfl, rfl, rfl⟩
  have hvehicle : (catalogDb .insertion).exec (.selectTarget t.channel t.device t.architecture) x =
      (.ok (some t.vehicleReleaseId), x) := by
    rw [exec_selectTarget, Server.read_eq_ok_iff, hfind]
    exact ⟨by simpa using ⟨hchannel, hdevice, harchitecture⟩, rfl, rfl⟩
  have hselect : (selectTree ⟨some t.channel, some t.device, some t.architecture, none,
      expected⟩).run (catalogDb .insertion) [] x = (.ok (some tree), [], x) :=
    (Prog.run_bind_of_ok (run_perform_nil hvehicle) _).trans
      (Prog.run_bind_of_ok (run_resolveMembersToTree_of_resolved htree) _)
  exact l1_of_selectTree rfl hselect hexpected

/-- For the row of a channel, the pinned request and the channel request get one tree. -/
theorem l1_agree (hbound : TargetsBound sha x) (hrecorded : TargetsRecorded x) {t : ChannelTarget}
    (ht : t ∈ x.committed.channelTargets.rows) :
    ∃ tree,
      (∀ channel, x.l1 sha ⟨channel, some t.vehicleReleaseId, some t.treeHash, t.device,
        t.architecture⟩ = .ok tree) ∧
      ∀ expected, (expected = none ∨ expected = some t.treeHash) →
        x.l1 sha ⟨some t.channel, none, expected, t.device, t.architecture⟩ = .ok tree := by
  obtain ⟨tree, htree, hhash⟩ := hbound t ht
  refine ⟨tree, fun channel => ?_, fun expected hexpected => l1_channel ht htree fun h hh => ?_⟩
  · rw [hhash]
    exact l1_pinned ⟨t.vehicleReleaseId, t.device, t.architecture⟩ channel (hrecorded t ht) htree
  · rcases hexpected with rfl | rfl
    · cases hh
    · exact (Option.mem_some_iff.mp hh).symm.trans hhash

end

/-- Pinned signing is authorised exactly by history and agrees with the channel path: a pinned
request passes iff some earlier request moved a channel to its release for its pair, and for every
channel row the pinned request that expects its tree hash and the channel request get one tree. -/
theorem pinned_target_iff_moved (storable : Value → Bool) (sha : Sha256) (clocks : Clocks)
    (steps : List (ChangeStep Value))
    (hsteps : Trace.AllMeet (Server.next storable sha) (RollsBack sha) (.empty clocks) steps) :
    let x := steps.foldl (Server.next storable sha) (.empty clocks)
    (∀ target : VehicleReleaseTarget,
      MatchesTarget x target.vehicleReleaseId target.device target.architecture ↔
        MovedBefore storable sha clocks steps target) ∧
    ∀ t ∈ x.committed.channelTargets.rows, ∃ tree,
      (∀ channel, x.l1 sha ⟨channel, some t.vehicleReleaseId, some t.treeHash, t.device,
        t.architecture⟩ = .ok tree) ∧
      ∀ expected, (expected = none ∨ expected = some t.treeHash) →
        x.l1 sha ⟨some t.channel, none, expected, t.device, t.architecture⟩ = .ok tree := by
  intro x
  refine ⟨fun target => ?_, fun t ht => ?_⟩
  · rw [matchesTarget_iff]
    exact mem_releaseTargets_iff hsteps target
  · exact l1_agree (targetsBound_foldl_next storable sha clocks steps)
      (targetsRecorded_foldl_next steps) ht

/-- The component release of the sample. -/
def movesComponent : NewComponentRelease :=
  ⟨"vm1", "vm", "1.0", []⟩

/-- The tree of a vehicle release with that component. -/
def movesTree : Tree :=
  .ofList [("vm1", ⟨"vm", some "1.0", none, [], false, none⟩)]

/-- The digests of the texts that the sample hashes: its component, its members, and the trees of
its two vehicle releases, the second of which is empty. -/
def movesSha : Sha256 :=
  .ofDigests
    [(componentText movesComponent.entityKind movesComponent.parts,
      ⟨#v[66, 127, 147, 202, 253, 156, 193, 155, 230, 238, 192, 62, 89, 12, 156, 108, 223, 159, 104,
        138, 94, 175, 33, 250, 141, 114, 53, 30, 43, 21, 253, 5]⟩),
      (vehicleText [1] [], ⟨#v[107, 134, 178, 115, 255, 52, 252, 225, 157, 107, 128, 78, 255, 90,
        63, 87, 71, 173, 164, 234, 162, 47, 29, 73, 192, 30, 82, 221, 183, 135, 91, 75]⟩),
      ("", ⟨#v[227, 176, 196, 66, 152, 252, 28, 20, 154, 251, 244, 200, 153, 111, 185, 36, 39, 174,
        65, 228, 100, 155, 147, 76, 164, 149, 153, 27, 120, 82, 184, 85]⟩),
      (treeText movesTree, ⟨#v[14, 67, 211, 189, 135, 103, 22, 235, 81, 149, 73, 80, 196, 171, 208,
        167, 61, 109, 207, 178, 49, 216, 28, 29, 64, 43, 67, 228, 200, 186, 63, 250]⟩)]

/-- A channel is moved to one release and then to another. -/
def sampleMoves : List (ChangeStep Unit) :=
  [(.component movesComponent, []), (.vehicle ⟨"rig", "1", [1], [], none⟩, []),
    (.vehicle ⟨"rig", "2", [], [], none⟩, []), (.setTarget ⟨"stable", "rig", "arm64", 1⟩, []),
    (.setTarget ⟨"stable", "rig", "arm64", 2⟩, [])]

/-- A move back that fails, since the reply to its second write is lost. -/
def failedMove : ChangeStep Unit :=
  (.setTarget ⟨"stable", "rig", "arm64", 1⟩,
    [none, none, none, none, none, some (.lost (.failed (.database "connection closed")))])

/-- A release that the channel has left is still authorised for the pair. -/
theorem pinned_target_moved_away :
    MatchesTarget ((sampleMoves ++ [failedMove]).foldl (Server.next (fun _ => true) movesSha)
      (.empty sampleClocks)) 1 "rig" "arm64" := by
  have hsteps : Trace.AllMeet (Server.next (fun _ => true) movesSha) (RollsBack movesSha)
      (.empty sampleClocks) (sampleMoves ++ [failedMove]) := by
    decide +kernel
  have hmoved : MovedBefore (fun _ => true) movesSha sampleClocks (sampleMoves ++ [failedMove])
      ⟨1, "rig", "arm64"⟩ :=
    ⟨sampleMoves.take 3, ⟨"stable", "rig", "arm64", 1⟩, [],
      ⟨"stable", "rig", "arm64", 1, treeHash movesSha movesTree⟩, ⟨_, rfl⟩, by decide +kernel, rfl⟩
  exact ((pinned_target_iff_moved _ _ _ _ hsteps).1 ⟨1, "rig", "arm64"⟩).mpr hmoved

end SoftwareTower
