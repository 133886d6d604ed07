import Mathlib.Data.List.Basic
import Mathlib.Logic.Function.Basic

/-!
# The boot-bound token cache

Calls of `RigToken::token` run concurrently. Each reads the boot id of the device, takes the lock of
the cache, and returns the cached token if it was minted for that boot id; otherwise it reads the
ecu id, mints a token and stores it, all under the lock. The boot id is read before the lock is
taken, so a call may enter with the boot id of a boot that is over.

A state holds the device, the cache with its lock, and where each call is; its last three fields are
a record of what happened. `step` is one action of a call or of the device, and an action that
cannot happen in a state does nothing. `boot_bound_token_cache` is about every sequence of actions.
-/

namespace Orchestrator.RigToken

/-! ## Definitions -/

/-- A request to the minter. -/
structure MintReq where
  /-- The audience of the token. -/
  deviceId : String
  components : List String
  bootId : Option String
  ttlSecs : Option ℕ
  deriving DecidableEq

/-- A token with the request it was minted for. -/
structure Minted where
  req : MintReq
  token : String
  deriving DecidableEq

/-- The token was minted for this boot. -/
def Minted.For (m : Minted) (bootId token : String) : Prop :=
  m.req.bootId = some bootId ∧ m.token = token

/-- Where a call of `token` is. -/
inductive Phase where
  | start
  /-- The boot id is read, the lock is not taken yet. -/
  | waiting (bootId : String)
  /-- The call holds the lock, the cache has no token for its boot. -/
  | readingEcu (bootId : String)
  /-- The call holds the lock and knows the audience. -/
  | minting (bootId ecuId : String)
  | returned (token : String)
  | failed (message : String)
  deriving DecidableEq

/-- The boot id of a call that holds the lock. -/
def Phase.locked? : Phase → Option String
  | .readingEcu bootId => some bootId
  | .minting bootId _ => some bootId
  | _ => none

/-- The call has ended. -/
def Phase.Ended : Phase → Prop
  | .returned _ => True
  | .failed _ => True
  | _ => False

/-- The device, the cache and the calls. -/
structure State (ι : Type) where
  bootId : String
  ecuId : String
  cached : Option (String × String)
  /-- The call that holds the lock of the cache. -/
  holder : Option ι
  phase : ι → Phase
  /-- The boot id that each call has read. -/
  bootRead : ι → Option String
  /-- The tokens that were minted. -/
  mints : List Minted
  /-- The boot ids of the calls in the order in which they took the lock. -/
  acquired : List String

/-- What can happen. -/
inductive Action (ι : Type) where
  | reboot (bootId : String)
  | readBoot (i : ι)
  | bootReadFails (i : ι) (message : String)
  | acquire (i : ι)
  | readEcu (i : ι)
  | ecuReadFails (i : ι) (message : String)
  | mint (i : ι) (token : String)
  | mintFails (i : ι) (message : String)

/-- The call that acts. -/
def Action.caller {ι : Type} : Action ι → Option ι
  | .reboot _ => none
  | .readBoot i => some i
  | .bootReadFails i _ => some i
  | .acquire i => some i
  | .readEcu i => some i
  | .ecuReadFails i _ => some i
  | .mint i _ => some i
  | .mintFails i _ => some i

/-- A mint fails. -/
def Action.MintFails {ι : Type} : Action ι → Prop
  | .mintFails _ _ => True
  | _ => False

/-- A read of the ecu id fails. -/
def Action.EcuReadFails {ι : Type} : Action ι → Prop
  | .ecuReadFails _ _ => True
  | _ => False

/-- The number of maximal runs of equal elements. -/
def numRuns : List String → ℕ
  | [] => 0
  | [_] => 1
  | a :: b :: l => numRuns (b :: l) + if a = b then 0 else 1

section Steps

variable {ι : Type} [DecidableEq ι]

/-- No call has started, and the cache is empty. -/
def init (bootId ecuId : String) : State ι where
  bootId := bootId
  ecuId := ecuId
  cached := none
  holder := none
  phase _ := .start
  bootRead _ := none
  mints := []
  acquired := []

/-- The call goes on to another phase. -/
def State.goto (s : State ι) (i : ι) (phase : Phase) : State ι :=
  { s with phase := Function.update s.phase i phase }

/-- The cached token, if it was minted for this boot. -/
def State.cachedFor (s : State ι) (bootId : String) : Option String :=
  match s.cached with
  | some (cachedBoot, token) => if cachedBoot = bootId then some token else none
  | none => none

/-- One action. `ttlSecs` is the lifetime that the minter is asked for. -/
def step (ttlSecs : Option ℕ) (s : State ι) : Action ι → State ι
  | .reboot bootId => { s with bootId := bootId }
  | .readBoot i =>
    match s.phase i with
    | .start =>
      { s.goto i (.waiting s.bootId) with bootRead := Function.update s.bootRead i (some s.bootId) }
    | _ => s
  | .bootReadFails i message =>
    match s.phase i with
    | .start => s.goto i (.failed message)
    | _ => s
  | .acquire i =>
    match s.phase i, s.holder with
    | .waiting bootId, none =>
      match s.cachedFor bootId with
      -- The lock is released with the return.
      | some token => { s.goto i (.returned token) with acquired := s.acquired ++ [bootId] }
      | none =>
        { s.goto i (.readingEcu bootId) with
          holder := some i
          acquired := s.acquired ++ [bootId] }
    | _, _ => s
  | .readEcu i =>
    match s.phase i with
    | .readingEcu bootId => s.goto i (.minting bootId s.ecuId)
    | _ => s
  | .ecuReadFails i message =>
    match s.phase i with
    | .readingEcu _ => { s.goto i (.failed message) with holder := none }
    | _ => s
  | .mint i token =>
    match s.phase i with
    | .minting bootId ecuId =>
      { s.goto i (.returned token) with
        cached := some (bootId, token)
        holder := none
        mints := s.mints ++ [⟨⟨ecuId, ["*"], some bootId, ttlSecs⟩, token⟩] }
    | _ => s
  | .mintFails i message =>
    match s.phase i with
    | .minting _ _ => { s.goto i (.failed message) with holder := none }
    | _ => s

/-- The state after a sequence of actions. -/
def run (ttlSecs : Option ℕ) (s : State ι) (actions : List (Action ι)) : State ι :=
  actions.foldl (step ttlSecs) s

/-! ## What a step does -/

/-- What an action does in a state in which it can happen. -/
inductive Happens (ttlSecs : Option ℕ) (s : State ι) : Action ι → State ι → Prop
  | reboot (bootId : String) : Happens ttlSecs s (.reboot bootId) { s with bootId := bootId }
  | readBoot {i : ι} (h : s.phase i = .start) :
      Happens ttlSecs s (.readBoot i) { s.goto i (.waiting s.bootId) with
        bootRead := Function.update s.bootRead i (some s.bootId) }
  | bootReadFails {i : ι} (message : String) (h : s.phase i = .start) :
      Happens ttlSecs s (.bootReadFails i message) (s.goto i (.failed message))
  | hit {i : ι} {bootId token : String} (h : s.phase i = .waiting bootId) (hfree : s.holder = none)
      (hcached : s.cached = some (bootId, token)) :
      Happens ttlSecs s (.acquire i) { s.goto i (.returned token) with
        acquired := s.acquired ++ [bootId] }
  | miss {i : ι} {bootId : String} (h : s.phase i = .waiting bootId) (hfree : s.holder = none)
      (hcached : s.cached.map Prod.fst ≠ some bootId) :
      Happens ttlSecs s (.acquire i) { s.goto i (.readingEcu bootId) with
        holder := some i
        acquired := s.acquired ++ [bootId] }
  | readEcu {i : ι} {bootId : String} (h : s.phase i = .readingEcu bootId) :
      Happens ttlSecs s (.readEcu i) (s.goto i (.minting bootId s.ecuId))
  | ecuReadFails {i : ι} {bootId : String} (message : String) (h : s.phase i = .readingEcu bootId) :
      Happens ttlSecs s (.ecuReadFails i message) { s.goto i (.failed message) with holder := none }
  | mint {i : ι} {bootId ecuId : String} (token : String) (h : s.phase i = .minting bootId ecuId) :
      Happens ttlSecs s (.mint i token) { s.goto i (.returned token) with
        cached := some (bootId, token)
        holder := none
        mints := s.mints ++ [⟨⟨ecuId, ["*"], some bootId, ttlSecs⟩, token⟩] }
  | mintFails {i : ι} {bootId ecuId : String} (message : String)
      (h : s.phase i = .minting bootId ecuId) :
      Happens ttlSecs s (.mintFails i message) { s.goto i (.failed message) with holder := none }

/-- An action happens or does nothing. -/
theorem step_cases (ttlSecs : Option ℕ) (s : State ι) (a : Action ι) :
    step ttlSecs s a = s ∨ Happens ttlSecs s a (step ttlSecs s a) := by
  cases a with
  | reboot bootId => exact .inr (.reboot bootId)
  | readBoot i =>
    dsimp only [step]
    split
    next h => exact .inr (.readBoot h)
    next => exact .inl rfl
  | bootReadFails i message =>
    dsimp only [step]
    split
    next h => exact .inr (.bootReadFails message h)
    next => exact .inl rfl
  | acquire i =>
    dsimp only [step]
    split
    next bootId h hfree =>
      -- The cache is compared under the lock.
      cases hcached : s.cached with
      | none =>
        have hmiss : s.cachedFor bootId = none := by simp [State.cachedFor, hcached]
        rw [hmiss]
        exact .inr (.miss h hfree (by simp [hcached]))
      | some entry =>
        obtain ⟨cachedBoot, token⟩ := entry
        by_cases hboot : cachedBoot = bootId
        · have hhit : s.cachedFor bootId = some token := by simp [State.cachedFor, hcached, hboot]
          rw [hhit]
          exact .inr (.hit h hfree (by rw [hcached, hboot]))
        · have hmiss : s.cachedFor bootId = none := by simp [State.cachedFor, hcached, hboot]
          rw [hmiss]
          exact .inr (.miss h hfree (by simp [hcached, hboot]))
    next => exact .inl rfl
  | readEcu i =>
    dsimp only [step]
    split
    next bootId h => exact .inr (.readEcu h)
    next => exact .inl rfl
  | ecuReadFails i message =>
    dsimp only [step]
    split
    next bootId h => exact .inr (.ecuReadFails message h)
    next => exact .inl rfl
  | mint i token =>
    dsimp only [step]
    split
    next bootId ecuId h => exact .inr (.mint token h)
    next => exact .inl rfl
  | mintFails i message =>
    dsimp only [step]
    split
    next bootId ecuId h => exact .inr (.mintFails message h)
    next => exact .inl rfl

/-- A step of another call, or of the device, leaves a call where it is. -/
theorem Happens.frame {ttlSecs : Option ℕ} {s s' : State ι} {a : Action ι} {j : ι}
    (h : Happens ttlSecs s a s') (hj : a.caller ≠ some j) :
    s'.phase j = s.phase j ∧ s'.bootRead j = s.bootRead j := by
  cases h <;> simp_all [Action.caller, State.goto, Function.update_of_ne, eq_comm]

/-- Mints are only added. -/
theorem Happens.mints_subset {ttlSecs : Option ℕ} {s s' : State ι} {a : Action ι}
    (h : Happens ttlSecs s a s') : s.mints ⊆ s'.mints := by
  cases h <;> simp [State.goto]

/-! ## The invariant -/

/-- What holds of a call in a phase. -/
def CallOk (s : State ι) (i : ι) : Phase → Prop
  | .start => s.holder ≠ some i
  | .waiting bootId => s.holder ≠ some i ∧ s.bootRead i = some bootId
  | .readingEcu bootId => s.holder = some i ∧ s.bootRead i = some bootId
  | .minting bootId _ => s.holder = some i ∧ s.bootRead i = some bootId
  | .returned token => s.holder ≠ some i ∧
      ∃ bootId, s.bootRead i = some bootId ∧ ∃ m ∈ s.mints, m.For bootId token
  | .failed _ => s.holder ≠ some i

/-- The cached token was minted for the cached boot, and every call is as its phase says. -/
structure Inv (s : State ι) : Prop where
  cached : ∀ bootId token, s.cached = some (bootId, token) → ∃ m ∈ s.mints, m.For bootId token
  calls : ∀ i, CallOk s i (s.phase i)

omit [DecidableEq ι] in
theorem inv_init (bootId ecuId : String) : Inv (init bootId ecuId : State ι) := by
  constructor <;> simp [init, CallOk]

omit [DecidableEq ι] in
/-- What holds of a call holds as long as its own data and its hold on the lock do not change. -/
theorem CallOk.mono {s s' : State ι} {i : ι} {phase : Phase} (h : CallOk s i phase)
    (hread : s'.bootRead i = s.bootRead i) (hmints : s.mints ⊆ s'.mints)
    (hholder : s'.holder = some i ↔ s.holder = some i) : CallOk s' i phase := by
  cases phase with
  | returned token =>
    obtain ⟨hfree, bootId, hboot, m, hm, hfor⟩ := h
    exact ⟨fun hheld => hfree (hholder.mp hheld), bootId, hread.trans hboot, m, hmints hm, hfor⟩
  | _ => simpa only [CallOk, ne_eq, hholder, hread] using h

/-- Only the call that acts takes the lock or releases it. -/
theorem Happens.holder_iff {ttlSecs : Option ℕ} {s s' : State ι} {a : Action ι} {j : ι}
    (h : Happens ttlSecs s a s') (hinv : Inv s) (hj : a.caller ≠ some j) :
    s'.holder = some j ↔ s.holder = some j := by
  cases h with
  | miss h hfree hcached => simp_all [Action.caller]
  | @ecuReadFails i _ _ h =>
    -- The call that fails held the lock.
    have hi := hinv.calls i
    simp_all [Action.caller, CallOk]
  | @mint i _ _ _ h =>
    have hi := hinv.calls i
    simp_all [Action.caller, CallOk]
  | @mintFails i _ _ _ h =>
    have hi := hinv.calls i
    simp_all [Action.caller, CallOk]
  | _ => rfl

theorem Inv.happens {ttlSecs : Option ℕ} {s s' : State ι} {a : Action ι} (h : Inv s)
    (hstep : Happens ttlSecs s a s') : Inv s' := by
  constructor
  · intro bootId token hcached
    cases hstep with
    | mint token' hphase =>
      -- The token that is stored is the one just minted.
      obtain ⟨rfl, rfl⟩ : _ = bootId ∧ token' = token := by simpa using hcached
      exact ⟨_, List.mem_append_right _ (List.mem_singleton.mpr rfl), rfl, rfl⟩
    | _ => exact h.cached bootId token hcached
  · intro j
    by_cases hj : a.caller = some j
    · have hown := h.calls j
      cases hstep with
      | reboot bootId => cases hj
      | readBoot hphase =>
        cases hj
        rw [hphase] at hown
        simpa [CallOk, State.goto] using hown
      | bootReadFails message hphase =>
        cases hj
        rw [hphase] at hown
        simpa [CallOk, State.goto] using hown
      | hit hphase hfree hcached =>
        cases hj
        rw [hphase] at hown
        simpa [CallOk, State.goto, hown.2, hfree] using h.cached _ _ hcached
      | miss hphase hfree hcached =>
        cases hj
        rw [hphase] at hown
        simpa [CallOk, State.goto] using hown.2
      | readEcu hphase =>
        cases hj
        rw [hphase] at hown
        simpa [CallOk, State.goto] using hown
      | ecuReadFails message hphase =>
        cases hj
        simp [CallOk, State.goto]
      | mint token hphase =>
        cases hj
        rw [hphase] at hown
        simp [CallOk, State.goto, hown.2, Minted.For]
      | mintFails message hphase =>
        cases hj
        simp [CallOk, State.goto]
    · obtain ⟨hphase, hread⟩ := hstep.frame hj
      rw [hphase]
      exact (h.calls j).mono hread hstep.mints_subset (hstep.holder_iff h hj)

theorem Inv.step {s : State ι} (h : Inv s) (ttlSecs : Option ℕ) (a : Action ι) :
    Inv (step ttlSecs s a) := by
  rcases step_cases ttlSecs s a with hidle | hstep
  · rwa [hidle]
  · exact h.happens hstep

theorem Inv.run {s : State ι} (h : Inv s) (ttlSecs : Option ℕ) (actions : List (Action ι)) :
    Inv (run ttlSecs s actions) := by
  induction actions generalizing s with
  | nil => exact h
  | cons a actions ih => exact ih (h.step ttlSecs a)

/-! ## Calls that fail -/

/-- A call that has ended stays as it is. -/
theorem phase_step_of_ended {s : State ι} {i : ι} (h : (s.phase i).Ended) (ttlSecs : Option ℕ)
    (a : Action ι) : (step ttlSecs s a).phase i = s.phase i := by
  rcases step_cases ttlSecs s a with hidle | hstep
  · rw [hidle]
  by_cases ha : a.caller = some i
  · -- Every action of a call starts from a phase in which it has not ended.
    generalize step ttlSecs s a = s' at hstep
    cases hstep <;> simp_all [Action.caller, Phase.Ended]
  · exact (hstep.frame ha).1

theorem phase_run_of_ended {s : State ι} {i : ι} (h : (s.phase i).Ended) (ttlSecs : Option ℕ)
    (actions : List (Action ι)) : (run ttlSecs s actions).phase i = s.phase i := by
  induction actions generalizing s with
  | nil => rfl
  | cons a actions ih =>
    have hstep := phase_step_of_ended h ttlSecs a
    exact (ih (by rwa [hstep])).trans hstep

/-- A call changes the cache only with the step in which it returns the token it has minted. -/
theorem cached_step (ttlSecs : Option ℕ) (s : State ι) (a : Action ι) :
    (step ttlSecs s a).cached = s.cached ∨
      ∃ i token, a.caller = some i ∧ (step ttlSecs s a).phase i = .returned token := by
  rcases step_cases ttlSecs s a with hidle | hstep
  · exact .inl (by rw [hidle])
  · generalize step ttlSecs s a = s' at hstep
    cases hstep with
    | mint token h => exact .inr ⟨_, token, rfl, by simp [State.goto]⟩
    | _ => exact .inl rfl

/-- No step of a call that fails changes the cache. -/
theorem cached_step_of_failed {ttlSecs : Option ℕ} {s : State ι} {a : Action ι}
    {after : List (Action ι)} {i : ι} {message : String}
    (hfailed : (run ttlSecs s (a :: after)).phase i = .failed message) (ha : a.caller = some i) :
    (step ttlSecs s a).cached = s.cached := by
  rcases cached_step ttlSecs s a with hkept | ⟨j, token, hj, hreturned⟩
  · exact hkept
  · -- A call that has returned has not failed, now or later.
    obtain rfl : i = j := Option.some.inj (ha.symm.trans hj)
    have hended : ((step ttlSecs s a).phase i).Ended := by
      rw [hreturned]
      trivial
    have hlater : (run ttlSecs s (a :: after)).phase i = (step ttlSecs s a).phase i :=
      phase_run_of_ended hended ttlSecs after
    rw [hlater, hreturned] at hfailed
    cases hfailed

/-! ## Counting mints -/

/-- Another element starts a new run unless it is the last one again. -/
theorem numRuns_append_singleton (l : List String) (b : String) :
    numRuns (l ++ [b]) = numRuns l + if l.getLast? = some b then 0 else 1 := by
  induction l with
  | nil => simp [numRuns]
  | cons a l ih =>
    cases l with
    | nil => by_cases h : a = b <;> simp [numRuns, h]
    | cons c l =>
      have hlast : (a :: c :: l).getLast? = (c :: l).getLast? := List.getLast?_cons_cons
      rw [hlast, List.cons_append, List.cons_append, numRuns, ← List.cons_append, ih, numRuns]
      omega

/-- As long as nothing fails under the lock, each run of boot ids has its mint, the last one as soon
as the lock is free. -/
structure Counted (s : State ι) : Prop where
  count : s.mints.length + (if s.holder.isSome then 1 else 0) = numRuns s.acquired
  free : s.holder = none → s.acquired.getLast? = s.cached.map Prod.fst
  held : ∀ i bootId, (s.phase i).locked? = some bootId → s.acquired.getLast? = some bootId

omit [DecidableEq ι] in
theorem counted_init (bootId ecuId : String) : Counted (init bootId ecuId : State ι) := by
  constructor <;> simp [init, numRuns, Phase.locked?]

omit [DecidableEq ι] in
/-- The call whose phase is under the lock holds it. -/
theorem Inv.holder_of_locked {s : State ι} (h : Inv s) {i : ι} {bootId : String}
    (hlocked : (s.phase i).locked? = some bootId) : s.holder = some i := by
  have hi := h.calls i
  cases hphase : s.phase i with
  | readingEcu bootId =>
    rw [hphase] at hi
    exact hi.1
  | minting bootId ecuId =>
    rw [hphase] at hi
    exact hi.1
  | _ => simp [hphase, Phase.locked?] at hlocked

/-- A call that is under the lock after a call went on was so before, or is the one that went
on. -/
theorem State.of_locked_goto {s : State ι} {i j : ι} {phase : Phase} {bootId : String}
    (h : ((s.goto i phase).phase j).locked? = some bootId) :
    (j = i ∧ phase.locked? = some bootId) ∨ (j ≠ i ∧ (s.phase j).locked? = some bootId) := by
  by_cases hj : j = i
  · subst hj
    exact .inl ⟨rfl, by simpa [State.goto] using h⟩
  · exact .inr ⟨hj, by simpa [State.goto, hj] using h⟩

theorem Counted.happens {ttlSecs : Option ℕ} {s s' : State ι} {a : Action ι} (h : Counted s)
    (hinv : Inv s) (hstep : Happens ttlSecs s a s') (hmint : ¬ a.MintFails)
    (hecu : ¬ a.EcuReadFails) : Counted s' := by
  cases hstep with
  | reboot bootId => exact ⟨h.count, h.free, h.held⟩
  | @readBoot i hphase =>
    refine ⟨h.count, h.free, fun j bootId hlocked => ?_⟩
    rcases State.of_locked_goto hlocked with ⟨-, hself⟩ | ⟨-, hother⟩
    · cases hself
    · exact h.held j bootId hother
  | @bootReadFails i message hphase =>
    refine ⟨h.count, h.free, fun j bootId hlocked => ?_⟩
    rcases State.of_locked_goto hlocked with ⟨-, hself⟩ | ⟨-, hother⟩
    · cases hself
    · exact h.held j bootId hother
  | @hit i bootId token hphase hfree hcached =>
    -- The cached boot is that of the last call, so the run goes on.
    have hlast : s.acquired.getLast? = some bootId := by simp [h.free hfree, hcached]
    refine ⟨?_, fun _ => by simp [State.goto, hcached], fun j boot hlocked => ?_⟩
    · rw [numRuns_append_singleton, if_pos hlast, Nat.add_zero]
      exact h.count
    · rcases State.of_locked_goto hlocked with ⟨-, hself⟩ | ⟨-, hother⟩
      · cases hself
      · rw [hinv.holder_of_locked hother] at hfree
        cases hfree
  | @miss i bootId hphase hfree hcached =>
    -- The cached boot is another one, so a run starts, and its mint is to come.
    have hlast : s.acquired.getLast? ≠ some bootId := by rwa [h.free hfree]
    have hcount := h.count
    refine ⟨?_, by simp, fun j boot hlocked => ?_⟩
    · rw [hfree] at hcount
      rw [numRuns_append_singleton, if_neg hlast, ← hcount]
      simp [State.goto]
    · rcases State.of_locked_goto hlocked with ⟨-, hself⟩ | ⟨-, hother⟩
      · obtain rfl : bootId = boot := Option.some.inj hself
        simp
      · rw [hinv.holder_of_locked hother] at hfree
        cases hfree
  | @readEcu i bootId hphase =>
    refine ⟨h.count, h.free, fun j boot hlocked => ?_⟩
    rcases State.of_locked_goto hlocked with ⟨rfl, hself⟩ | ⟨-, hother⟩
    · obtain rfl : bootId = boot := Option.some.inj hself
      exact h.held j bootId (by rw [hphase]; rfl)
    · exact h.held j boot hother
  | ecuReadFails message hphase => exact absurd trivial hecu
  | @mint i bootId ecuId token hphase =>
    have hlocked : (s.phase i).locked? = some bootId := by rw [hphase]; rfl
    have hholder := hinv.holder_of_locked hlocked
    have hcount := h.count
    refine ⟨?_, fun _ => by simp [State.goto, h.held i bootId hlocked], fun j boot hstill => ?_⟩
    · rw [hholder] at hcount
      simpa [State.goto] using hcount
    · rcases State.of_locked_goto hstill with ⟨-, hself⟩ | ⟨hj, hother⟩
      · cases hself
      · -- No other call is under the lock.
        have heq := hinv.holder_of_locked hother
        rw [hholder] at heq
        exact absurd (Option.some.inj heq).symm hj
  | mintFails message hphase => exact absurd trivial hmint

theorem Counted.run {s : State ι} (h : Counted s) (hinv : Inv s) (ttlSecs : Option ℕ)
    {actions : List (Action ι)} (hmint : ∀ a ∈ actions, ¬ a.MintFails)
    (hecu : ∀ a ∈ actions, ¬ a.EcuReadFails) : Counted (run ttlSecs s actions) := by
  induction actions generalizing s with
  | nil => exact h
  | cons a actions ih =>
    rw [List.forall_mem_cons] at hmint hecu
    refine ih ?_ (hinv.step ttlSecs a) hmint.2 hecu.2
    rcases step_cases ttlSecs s a with hidle | hstep
    · rwa [hidle]
    · exact h.happens hinv hstep hmint.1 hecu.1

/-! ## Every interleaving -/

/-- After every sequence of actions: a token that a call has returned was minted for the boot id
that the call has read; the cache is empty or has a token minted for its boot id; no step of a call
that has failed changed the cache; and if no mint and no read of the ecu id has failed, there are as
many mints as runs of equal boot ids in the order of the lock, except that the mint of the last run
is to come while the lock is held. -/
theorem boot_bound_token_cache (ttlSecs : Option ℕ) (bootId ecuId : String)
    (actions : List (Action ι)) :
    let s := run ttlSecs (init bootId ecuId) actions
    (∀ i token, s.phase i = .returned token →
        ∃ boot, s.bootRead i = some boot ∧ ∃ m ∈ s.mints, m.For boot token) ∧
      (s.cached = none ∨
        ∃ boot token, s.cached = some (boot, token) ∧ ∃ m ∈ s.mints, m.For boot token) ∧
      (∀ i message, s.phase i = .failed message →
        ∀ before a after, actions = before ++ a :: after → a.caller = some i →
          let s₁ := run ttlSecs (init bootId ecuId) before
          (step ttlSecs s₁ a).cached = s₁.cached) ∧
      ((∀ a ∈ actions, ¬ a.MintFails) → (∀ a ∈ actions, ¬ a.EcuReadFails) →
        s.mints.length + (if s.holder.isSome then 1 else 0) = numRuns s.acquired) := by
  intro s
  -- The first two parts are read off the invariant, the third is about one step, and the count is
  -- an invariant of its own where no mint and no read of the ECU id fails.
  have hinv : Inv s := (inv_init bootId ecuId).run ttlSecs actions
  refine ⟨?_, ?_, ?_, ?_⟩
  · intro i token hreturned
    have hi := hinv.calls i
    rw [hreturned] at hi
    exact hi.2
  · cases hcached : s.cached with
    | none => exact .inl rfl
    | some entry => exact .inr ⟨entry.1, entry.2, rfl, hinv.cached _ _ hcached⟩
  · rintro i message hfailed before a after rfl ha s₁
    have hrun : s = run ttlSecs s₁ (a :: after) := List.foldl_append
    rw [hrun] at hfailed
    exact cached_step_of_failed hfailed ha
  · intro hmint hecu
    exact ((counted_init bootId ecuId).run (inv_init bootId ecuId) ttlSecs hmint hecu).count

end Steps

/-- Two calls, one of which enters with the boot id of a boot that is over, mint twice. -/
theorem boot_bound_token_cache_stale_reader :
    let actions : List (Action (Fin 2)) :=
      [.readBoot 0, .reboot "b2", .readBoot 1, .acquire 1, .readEcu 1, .mint 1 "t2", .acquire 0,
        .readEcu 0, .mint 0 "t1"]
    let s := run none (init "b1" "ecu") actions
    s.phase 0 = .returned "t1" ∧ (∃ m ∈ s.mints, m.For "b1" "t1") ∧
      s.mints.length = numRuns s.acquired := by
  intro actions s
  obtain ⟨hreturned, -, -, hcount⟩ := boot_bound_token_cache none "b1" "ecu" actions
  have hphase : s.phase 0 = .returned "t1" := by decide
  obtain ⟨boot, hboot, hminted⟩ := hreturned 0 "t1" hphase
  obtain rfl : boot = "b1" := Option.some.inj (hboot.symm.trans (by decide))
  refine ⟨hphase, hminted, ?_⟩
  exact hcount (by simp [actions, Action.MintFails]) (by simp [actions, Action.EcuReadFails])

/-- A call whose read of the ecu id fails takes the lock and mints nothing, although no mint has
failed. -/
theorem mints_ne_runs_of_ecu_read :
    let actions : List (Action (Fin 1)) := [.readBoot 0, .acquire 0, .ecuReadFails 0 "HTTP 503"]
    let s := run none (init "b1" "ecu") actions
    (∀ a ∈ actions, ¬ a.MintFails) ∧ (∀ i, (s.phase i).Ended) ∧ s.holder = none ∧
      s.mints.length ≠ numRuns s.acquired := by
  intro actions s
  refine ⟨by simp [actions, Action.MintFails], ?_, by decide, by decide⟩
  intro i
  obtain rfl : i = 0 := Subsingleton.elim i 0
  trivial

end Orchestrator.RigToken
