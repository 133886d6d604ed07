import SumoProvision.Orchestrator.Dispatch

/-!
# Campaign steps

`campaign_execute` groups the flash jobs of an L1 into ordered steps. A component that the device
reports as irreversible is flashed alone, in a step of its own, before all others; what remains is
flashed together as one trial, which a single node reboot activates. A component whose update mode
is not reported counts as reversible.

`campaignExecute_noMix` says that the steps never put an irreversible component into the trial.
-/

namespace Orchestrator

open Wire

/-! ## Definitions -/

/-- A step of a campaign: the jobs of one transaction. -/
structure CampaignStep where
  jobs : List FlashJob
  /-- Whether one node reboot activates the whole step. -/
  forceEcuReset : Bool
  deriving DecidableEq

/-- Whether the device reports the component as irreversible. -/
def isSingleshot (observed : Tree) (component : String) : Bool :=
  ((observed.get? component).bind (·.updateMode)).map (·.supportsRollback) == some false

/-- The steps of a campaign: each singleshot alone, then the banked group. -/
def campaignSteps (observed : Tree) (jobs : List FlashJob) : List CampaignStep :=
  let (singleshot, banked) := jobs.partition fun job => isSingleshot observed job.componentId
  let steps := singleshot.map fun job => ⟨[job], false⟩
  if banked.isEmpty then steps else steps ++ [⟨banked, true⟩]

/-- The number of singleshot steps in the log of the plan, `none` if the subtraction underflows. -/
def singleshotCount (steps : List CampaignStep) : Option ℕ :=
  let banked := if steps.getLast?.any (·.forceEcuReset) then 1 else 0
  if banked ≤ steps.length then some (steps.length - banked) else none

/-- Run the campaign of a plan: its jobs, the trust anchor of the engine and the observed tree. -/
def campaignExecute {Report : Type} (l1FlashPlan : Except Error (List FlashJob × Bytes × Tree))
    (only : Option (List String)) (noCommit : Bool)
    (runCampaign : Bytes → List CampaignStep → Bool → Except Error (List Report)) :
    Except Error (List Report) := do
  let (jobs, trustAnchor, observed) ← l1FlashPlan
  if jobs.isEmpty then
    match only with
    -- An allowlist that matches no component is a mistake of the caller.
    | some allow => .error (.onlyMatchedNothing (", ".intercalate allow))
    | none => return []
  else runCampaign trustAnchor (campaignSteps observed jobs) noCommit

/-- The device reports the component of a job, and that its updates cannot be rolled back. -/
def Irreversible (observed : Tree) (job : FlashJob) : Prop :=
  ∃ e mode, observed.get? job.componentId = some e ∧ e.updateMode = some mode ∧
    mode.supportsRollback = false

theorem isSingleshot_iff {observed : Tree} {job : FlashJob} :
    isSingleshot observed job.componentId = true ↔ Irreversible observed job := by
  simp [isSingleshot, Irreversible, Option.bind_eq_some_iff, ← exists_and_left]

instance (observed : Tree) (job : FlashJob) : Decidable (Irreversible observed job) :=
  decidable_of_iff _ isSingleshot_iff

/-- The steps keep irreversible jobs and the others apart. -/
structure NoMix (observed : Tree) (jobs : List FlashJob) (steps : List CampaignStep) : Prop where
  /-- Every job is in exactly one step, once. -/
  once : (steps.flatMap (·.jobs)).Perm jobs
  /-- An irreversible job has a step of its own. -/
  alone : ∀ step ∈ steps, ∀ job ∈ step.jobs, Irreversible observed job → step = ⟨[job], false⟩
  /-- Any other job is in the last step, which is a trial without irreversible jobs. -/
  trial : ∀ step ∈ steps, ∀ job ∈ step.jobs, ¬ Irreversible observed job →
    step.forceEcuReset = true ∧ (∀ job' ∈ step.jobs, ¬ Irreversible observed job') ∧
      ∃ earlier, steps = earlier ++ [step] ∧
        ∀ step' ∈ earlier, ∀ job' ∈ step'.jobs, Irreversible observed job'
  nonempty : ∀ step ∈ steps, step.jobs ≠ []
  /-- Within each of the two classes the jobs keep their order. -/
  order : ∀ irreversible : Bool,
    (steps.flatMap (·.jobs)).filter (fun job => Irreversible observed job ↔ irreversible) =
      jobs.filter fun job => Irreversible observed job ↔ irreversible
  count : singleshotCount steps = some (jobs.countP fun job => Irreversible observed job)

/-! ## The two classes of jobs -/

section Steps

variable (observed : Tree) (jobs : List FlashJob)

/-- The jobs that are flashed alone. -/
def singleshotJobs : List FlashJob :=
  jobs.filter fun job => Irreversible observed job

/-- The jobs of the trial. -/
def bankedJobs : List FlashJob :=
  jobs.filter fun job => ¬ Irreversible observed job

/-- The step of the trial, if there is one. -/
def trialStep : Option CampaignStep :=
  if bankedJobs observed jobs = [] then none else some ⟨bankedJobs observed jobs, true⟩

theorem campaignSteps_eq :
    campaignSteps observed jobs =
      (singleshotJobs observed jobs).map (fun job => ⟨[job], false⟩) ++
        (trialStep observed jobs).toList := by
  have hsingleshot : (jobs.filter fun job => isSingleshot observed job.componentId) =
      singleshotJobs observed jobs :=
    List.filter_congr fun job _ => by rw [Bool.eq_iff_iff, isSingleshot_iff, decide_eq_true_eq]
  have hbanked : (jobs.filter fun job => !isSingleshot observed job.componentId) =
      bankedJobs observed jobs :=
    List.filter_congr fun job _ => by
      rw [Bool.eq_iff_iff, Bool.not_eq_true', ← Bool.not_eq_true, isSingleshot_iff,
        decide_eq_true_eq]
  rw [campaignSteps, List.partition_eq_filter_filter, trialStep]
  simp only [Function.comp_def, hsingleshot, hbanked, List.isEmpty_iff]
  split <;> simp

/-- Behind each other, the jobs of the steps are the singleshots and then the banked ones. -/
theorem flatMap_jobs_campaignSteps :
    (campaignSteps observed jobs).flatMap (·.jobs) =
      singleshotJobs observed jobs ++ bankedJobs observed jobs := by
  have hsingleshot : ((singleshotJobs observed jobs).map fun job =>
      (⟨[job], false⟩ : CampaignStep)).flatMap (·.jobs) = singleshotJobs observed jobs := by
    rw [List.flatMap_map]
    exact List.flatMap_singleton' _
  have htrial : (trialStep observed jobs).toList.flatMap (·.jobs) = bankedJobs observed jobs := by
    rw [trialStep]
    split
    next hnil => rw [hnil]; rfl
    next => simp
  rw [campaignSteps_eq, List.flatMap_append, hsingleshot, htrial]

variable {observed jobs}

/-- A step is a singleshot alone or the trial. -/
theorem mem_campaignSteps {step : CampaignStep} (h : step ∈ campaignSteps observed jobs) :
    (∃ job, Irreversible observed job ∧ step = ⟨[job], false⟩) ∨
      (bankedJobs observed jobs ≠ [] ∧ step = ⟨bankedJobs observed jobs, true⟩) := by
  rw [campaignSteps_eq, List.mem_append, List.mem_map, Option.mem_toList] at h
  rcases h with ⟨job, hjob, rfl⟩ | htrial
  · exact .inl ⟨job, by simpa using (List.mem_filter.mp hjob).2, rfl⟩
  · rw [trialStep] at htrial
    split at htrial
    next => cases htrial
    next hne => exact .inr ⟨hne, (Option.mem_some.mp htrial).symm⟩

theorem not_irreversible_of_mem_bankedJobs {job : FlashJob} (h : job ∈ bankedJobs observed jobs) :
    ¬ Irreversible observed job := by
  simpa using (List.mem_filter.mp h).2

/-- The steps in front of the trial hold irreversible jobs. -/
theorem campaignSteps_of_trial (h : bankedJobs observed jobs ≠ []) :
    ∃ earlier, campaignSteps observed jobs = earlier ++ [⟨bankedJobs observed jobs, true⟩] ∧
      ∀ step ∈ earlier, ∀ job ∈ step.jobs, Irreversible observed job := by
  refine ⟨_, by rw [campaignSteps_eq, trialStep, if_neg h, Option.toList_some], ?_⟩
  intro step hstep job hjob
  obtain ⟨job', hjob', rfl⟩ := List.mem_map.mp hstep
  obtain rfl := List.mem_singleton.mp hjob
  simpa using (List.mem_filter.mp hjob').2

/-- The flag of the last step tells whether there is a trial, so the count is that of the other
steps. -/
theorem singleshotCount_campaignSteps :
    singleshotCount (campaignSteps observed jobs) =
      some (jobs.countP fun job => Irreversible observed job) := by
  have hlength : (singleshotJobs observed jobs).length =
      jobs.countP fun job => Irreversible observed job := List.countP_eq_length_filter.symm
  rw [campaignSteps_eq, ← hlength, trialStep]
  split
  next =>
    have hlast : ∀ job : Option FlashJob, (job.map fun job =>
        (⟨[job], false⟩ : CampaignStep)).any (·.forceEcuReset) = false := by
      rintro (_ | job) <;> rfl
    simp [singleshotCount, hlast]
  next => simp [singleshotCount]

/-- The steps of a campaign respect the no-mix discipline. -/
theorem noMix_campaignSteps (observed : Tree) (jobs : List FlashJob) :
    NoMix observed jobs (campaignSteps observed jobs) where
  once := by
    rw [flatMap_jobs_campaignSteps]
    simpa [singleshotJobs, bankedJobs] using
      List.filter_append_perm (fun job => decide (Irreversible observed job)) jobs
  alone := by
    intro step hstep job hjob hirreversible
    rcases mem_campaignSteps hstep with ⟨job', -, rfl⟩ | ⟨-, rfl⟩
    · obtain rfl := List.mem_singleton.mp hjob
      rfl
    · exact absurd hirreversible (not_irreversible_of_mem_bankedJobs hjob)
  trial := by
    intro step hstep job hjob hbanked
    rcases mem_campaignSteps hstep with ⟨job', hirreversible, rfl⟩ | ⟨hne, rfl⟩
    · obtain rfl := List.mem_singleton.mp hjob
      exact absurd hirreversible hbanked
    · exact ⟨rfl, fun job' => not_irreversible_of_mem_bankedJobs, campaignSteps_of_trial hne⟩
  nonempty := by
    intro step hstep
    rcases mem_campaignSteps hstep with ⟨job, -, rfl⟩ | ⟨hne, rfl⟩
    · exact List.cons_ne_nil _ _
    · exact hne
  order := by
    intro irreversible
    rw [flatMap_jobs_campaignSteps, singleshotJobs, bankedJobs, List.filter_append,
      List.filter_filter, List.filter_filter]
    cases irreversible <;> simp
  count := singleshotCount_campaignSteps

end Steps

/-- A campaign with jobs runs steps that put every irreversible job alone in front of the trial. -/
theorem campaignExecute_noMix {Report : Type} (observed : Tree) (jobs : List FlashJob)
    (hjobs : jobs ≠ []) (trustAnchor : Bytes) (only : Option (List String)) (noCommit : Bool)
    (runCampaign : Bytes → List CampaignStep → Bool → Except Error (List Report)) :
    ∃ steps, campaignExecute (.ok (jobs, trustAnchor, observed)) only noCommit runCampaign =
        runCampaign trustAnchor steps noCommit ∧
      NoMix observed jobs steps := by
  refine ⟨campaignSteps observed jobs, ?_, noMix_campaignSteps observed jobs⟩
  simp [campaignExecute, hjobs]

/-- The keystore is flashed in front of the two others, of which one reports no update mode. -/
theorem campaignExecute_noMix_keystore :
    let job (component : String) : FlashJob := ⟨component, none, [], []⟩
    let observed : Tree := .ofList [
      ("host", { updateMode := some { mode := "banked", supportsRollback := true } }),
      ("hsm", { updateMode := some { mode := "singleshot", supportsRollback := false } })]
    let jobs := [job "host", job "hsm", job "vm1"]
    campaignSteps observed jobs = [⟨[job "hsm"], false⟩, ⟨[job "host", job "vm1"], true⟩] ∧
      ∃ steps, campaignExecute (.ok (jobs, [], observed)) none false (fun _ steps _ => .ok steps) =
          .ok steps ∧
        NoMix observed jobs steps := by
  intro job observed jobs
  exact ⟨by decide +kernel, campaignExecute_noMix observed jobs (by simp [jobs]) [] none false _⟩

end Orchestrator
