import SumoProvision.SoftwareTower.PinnedTargets

/-!
# The last move wins

What the handlers around `channel_targets` answer after a sequence of requests. A channel can be
looked up by a selector, which picks the target that was updated last, or by the full key, and
`list_channels` lists all targets at once.

`channel_follows_last_move` says that each of these answers with the last move that succeeded among
those that it selects, whatever other requests came before, in between or after. The row that was
updated last is the one with the latest `updated_at`, so this is for a clock that goes on from move
to move.
-/

namespace SoftwareTower

open Wire

variable {Value : Type}

/-! ## Listing the channels -/

/-- The SQL statement of `list_channels`. -/
inductive ChannelsSql where
  | selectChannels

/-- The statement with its reply and errors. -/
abbrev channelsSql (Value : Type) : Signature :=
  ⟨ChannelsSql, fun _ => List (ChannelTarget × VehicleRelease Value), SqlError⟩

/-- `ORDER BY channel, device, architecture`. -/
def ChannelTarget.le (collate : String → String → Bool) (t t' : ChannelTarget) : Bool :=
  if t.channel ≠ t'.channel then collate t.channel t'.channel
  else if t.device ≠ t'.device then collate t.device t'.device
  else collate t.architecture t'.architecture

/-- The targets of all channels, each with the release it points at. -/
def Catalog.channels (collate : String → String → Bool) (c : Catalog Value) :
    List (ChannelTarget × VehicleRelease Value) :=
  (c.channelTargets.rows.filterMap fun t =>
    (c.releases.vehicleRelease t.vehicleReleaseId).map fun r => (t, r)).mergeSort
      fun row row' => row.1.le collate row'.1

/-- The database server, comparing texts by `collate`. -/
def channelsDb (collate : String → String → Bool) :
    Service (channelsSql Value) (Server Value) where
  exec
    | .selectChannels, x => (.ok (x.committed.channels collate), x)

/-- A release in a response. -/
def VehicleRelease.ref (r : VehicleRelease Value) : VehicleRef :=
  ⟨r.id, r.tag, r.version, r.createdAt⟩

/-- The state of a target in a response. -/
def ChannelTarget.state (t : ChannelTarget) (r : VehicleRelease Value) : ChannelTargetState Value :=
  ⟨t.channel, some t.device, some t.architecture, some r.ref, some r.ref, some t.treeHash,
    r.configSnapshot⟩

/-- `GET /admin/channels`. -/
def listChannels : Prog (channelsSql Value) AppError (List (ChannelTargetState Value)) := do
  let rows ← Prog.perform (S := channelsSql Value) .selectChannels dbError
  return rows.map fun row => row.1.state row.2

/-! ## The last move -/

/-- The selector admits the target of a channel. A field that is not supplied admits every one. -/
def TargetSelector.Admits (sel : TargetSelector) (channel device architecture : String) : Prop :=
  sel.channel = some channel ∧ (∀ d ∈ sel.device, device = d) ∧
    ∀ a ∈ sel.architecture, architecture = a

instance (sel : TargetSelector) (channel device architecture : String) :
    Decidable (sel.Admits channel device architecture) :=
  inferInstanceAs (Decidable (_ ∧ _ ∧ _))

/-- The selector of one target. -/
def TargetSelector.exact (channel device architecture : String) : TargetSelector :=
  { channel := some channel, device := some device, architecture := some architecture }

/-- The response to a request, if it moved a channel target that the selector admits. -/
def Server.moved (sha : Sha256) (sel : TargetSelector) (x : Server Value) :
    ChangeStep Value → Option ChannelTargetRef
  | (.setTarget req, faults) =>
    if sel.Admits req.channel req.device req.architecture then
      (x.respondTarget sha req faults).toOption
    else none
  | _ => none

/-- The response to the last request of a sequence that moved such a target. -/
def Server.lastMove (storable : Value → Bool) (sha : Sha256) (sel : TargetSelector)
    (x : Server Value) (steps : List (ChangeStep Value)) : Option ChannelTargetRef :=
  Trace.last (Server.next storable sha) (Server.moved sha sel) x steps

/-! ## Moving a target -/

/-- A row as the response that made it. -/
def ChannelTarget.answer (t : ChannelTarget) : ChannelTargetRef :=
  ⟨t.channel, t.device, t.architecture, t.vehicleReleaseId, t.treeHash⟩

/-- The rows that a selector admits. -/
def Catalog.admitted (c : Catalog Value) (sel : TargetSelector) : List ChannelTarget :=
  c.channelTargets.rows.filter fun t => sel.Admits t.channel t.device t.architecture

/-- The rows are those of a move and others that were updated before it; or there are none. -/
def Latest (rows : List ChannelTarget) : Option ChannelTargetRef → Prop
  | none => rows = []
  | some ref => ∃ t ∈ rows, t.answer = ref ∧ ∀ t' ∈ rows, t' ≠ t → t'.updatedAt < t.updatedAt

/-- The catalog has the last move of a selector, and the clock goes on and is ahead of all
updates. -/
structure Follows (sel : TargetSelector) (c : Catalog Value) (last : Option ChannelTargetRef) :
    Prop where
  ticks : StrictMono c.clock
  stamped : ∀ t ∈ c.channelTargets.rows, t.updatedAt < c.clock 0
  latest : Latest (c.admitted sel) last

/-- Changed elements that a filter rejects before and after do not show in it. -/
theorem filter_map_eq_filter {ρ : Type} {p : ρ → Bool} {f : ρ → ρ} {l : List ρ}
    (h : ∀ r ∈ l, f r = r ∨ (p r = false ∧ p (f r) = false)) : (l.map f).filter p = l.filter p := by
  induction l with
  | nil => rfl
  | cons r l ih =>
    rw [List.map_cons, List.filter_cons, List.filter_cons, ih fun r' hr' => h r' (.tail _ hr')]
    rcases h r List.mem_cons_self with hsame | ⟨hold, hnew⟩
    · rw [hsame]
    · simp [hold, hnew]

section Moves

variable {sel : TargetSelector} {c c' : Catalog Value} {last : Option ChannelTargetRef}

/-- What an upsert does: the row is appended, or it takes the place of the one with its key. -/
theorem Catalog.rows_of_upsertChannelTarget {target : ChannelTarget}
    (h : c.upsertChannelTarget target = .ok c') :
    let row := { target with updatedAt := c.clock 0 }
    c'.clock = c.clock.advance ∧
      ((c'.channelTargets.rows = c.channelTargets.rows ++ [row] ∧ c.channelTargets.Free row) ∨
        (c'.channelTargets.rows = c.channelTargets.rows.map (Catalog.replaceTarget row) ∧
          ∃ t ∈ c.channelTargets.rows, t.Clash row)) := by
  intro row
  unfold Catalog.upsertChannelTarget at h
  dsimp only at h
  split at h
  · split at h
    · split at h
      · rename_i hfree
        cases h
        exact ⟨rfl, .inl ⟨rfl, hfree⟩⟩
      · rename_i hclash
        cases h
        refine ⟨rfl, .inr ⟨rfl, ?_⟩⟩
        simpa [Table.Free, row] using hclash
    · cases h
  · cases h

/-- The rows after an upsert: the new one, and old ones of other keys. -/
theorem Catalog.mem_of_upsertChannelTarget {target : ChannelTarget}
    (h : c.upsertChannelTarget target = .ok c') :
    let row := { target with updatedAt := c.clock 0 }
    ∀ t, t ∈ c'.channelTargets.rows ↔
      t = row ∨ (t ∈ c.channelTargets.rows ∧ ¬ t.Clash row) := by
  intro row t
  obtain ⟨-, ⟨hrows, hfree⟩ | ⟨hrows, old, hold, hclash⟩⟩ := Catalog.rows_of_upsertChannelTarget h
  · rw [hrows, List.mem_append, List.mem_singleton, or_comm]
    exact or_congr_right ⟨fun ht => ⟨ht, hfree t ht⟩, And.left⟩
  · rw [hrows, List.mem_map]
    constructor
    · rintro ⟨t', ht', rfl⟩
      unfold Catalog.replaceTarget
      split
      · exact .inl rfl
      · rename_i hne
        exact .inr ⟨ht', hne⟩
    · rintro (rfl | ⟨ht, hne⟩)
      · exact ⟨old, hold, if_pos hclash⟩
      · exact ⟨t, ht, if_neg hne⟩

/-- An upsert of a row that the selector does not admit leaves those that it admits. -/
theorem Catalog.admitted_of_upsertChannelTarget {target : ChannelTarget}
    (h : c.upsertChannelTarget target = .ok c')
    (hsel : ¬ sel.Admits target.channel target.device target.architecture) :
    c'.admitted sel = c.admitted sel := by
  obtain ⟨-, ⟨hrows, -⟩ | ⟨hrows, -⟩⟩ := Catalog.rows_of_upsertChannelTarget h
  · simp [Catalog.admitted, hrows, List.filter_append, hsel]
  · rw [Catalog.admitted, hrows]
    refine filter_map_eq_filter fun t ht => ?_
    unfold Catalog.replaceTarget
    split
    · rename_i hclash
      -- The replaced row has the key of the new one.
      obtain ⟨hchannel, hdevice, harchitecture⟩ := hclash
      exact .inr (by simp [hchannel, hdevice, harchitecture, hsel])
    · exact .inl rfl

theorem Catalog.of_insertReleaseTarget_eq_ok' {row : VehicleReleaseTarget}
    (h : c.insertReleaseTarget row = .ok c') :
    c'.channelTargets = c.channelTargets ∧ c'.clock = c.clock := by
  unfold Catalog.insertReleaseTarget at h
  repeat' split at h
  all_goals cases h
  · exact ⟨rfl, rfl⟩
  · exact ⟨rfl, rfl⟩

/-- A row that is upserted at the present time is the last one of the selectors that admit it. -/
theorem Follows.upsert (h : Follows sel c last) {target : ChannelTarget}
    (hupsert : c.upsertChannelTarget target = .ok c') :
    Follows sel c' (if sel.Admits target.channel target.device target.architecture then
      some target.answer else last) := by
  obtain ⟨hclock, -⟩ := Catalog.rows_of_upsertChannelTarget hupsert
  have hmem := Catalog.mem_of_upsertChannelTarget hupsert
  have hlater : c.clock 0 < c'.clock 0 := by
    rw [hclock]
    exact h.ticks Nat.zero_lt_one
  refine ⟨hclock ▸ Clock.strictMono_advance h.ticks, fun t ht => ?_, ?_⟩
  · rcases (hmem t).mp ht with rfl | ⟨hold, -⟩
    · exact hlater
    · exact (h.stamped t hold).trans hlater
  · split
    · rename_i hsel
      refine ⟨{ target with updatedAt := c.clock 0 }, ?_, rfl, fun t ht hne => ?_⟩
      · exact List.mem_filter.mpr ⟨(hmem _).mpr (.inl rfl), decide_eq_true hsel⟩
      · rcases (hmem t).mp (List.mem_of_mem_filter ht) with rfl | ⟨hold, -⟩
        · exact absurd rfl hne
        · exact h.stamped t hold
    · rename_i hsel
      rw [Catalog.admitted_of_upsertChannelTarget hupsert hsel]
      exact h.latest

/-- The step lemma: a move that the selector admits is the last one from now on, any other leaves
the last one. -/
theorem Follows.point (h : Follows sel c last) {req : SetChannelTarget} {th : String}
    (hpoint : c.point req th = .ok c') :
    Follows sel c' (if sel.Admits req.channel req.device req.architecture then
      some ⟨req.channel, req.device, req.architecture, req.vehicleReleaseId, th⟩ else last) := by
  obtain ⟨c₁, hinsert, hupsert⟩ := Except.bind_eq_ok_iff.mp hpoint
  obtain ⟨hchannels, hclock⟩ := Catalog.of_insertReleaseTarget_eq_ok' hinsert
  have h₁ : Follows sel c₁ last := by
    refine ⟨hclock ▸ h.ticks, ?_, ?_⟩
    · rw [hchannels, hclock]
      exact h.stamped
    · rw [Catalog.admitted, hchannels]
      exact h.latest
  exact h₁.upsert hupsert

end Moves

section Steps

variable {storable : Value → Bool} {sha : Sha256} {sel : TargetSelector} {x : Server Value}
  {last : Option ChannelTargetRef}

/-- One request: a move that succeeds is the last one of the selectors that admit it. -/
theorem Follows.next (h : Follows sel x.committed last) {step : ChangeStep Value}
    (hstep : RollsBack sha x step) :
    Follows sel (x.next storable sha step).committed ((x.moved sha sel step).or last) := by
  obtain ⟨change, faults⟩ := step
  cases change with
  | component req => exact ⟨h.ticks, h.stamped, h.latest⟩
  | vehicle req => exact ⟨h.ticks, h.stamped, h.latest⟩
  | setTarget req =>
    have hunmoved : ∀ e, x.respondTarget sha req faults = .error e →
        (x.next storable sha (.setTarget req, faults)).committed = x.committed →
        Follows sel (x.next storable sha (.setTarget req, faults)).committed
          ((x.moved sha sel (.setTarget req, faults)).or last) := by
      intro e herror hkept
      rw [hkept, Server.moved, herror]
      simpa [Except.toOption] using h
    -- A move that fails has left the catalog as it was, since it rolls back.
    rcases run_setChannelTarget_point .insertion sha req faults x with
      ⟨e, herror, hkept⟩ | ⟨tree, c', -, hpoint, ⟨e, herror, hkept⟩ | ⟨hc', hok | ⟨-, hlost⟩⟩⟩
    · exact hunmoved e herror hkept
    · exact hunmoved e herror hkept
    · have hrespond : x.respondTarget sha req faults = .ok ⟨req.channel, req.device,
          req.architecture, req.vehicleReleaseId, treeHash sha tree⟩ := hok
      have hcommitted : (x.next storable sha (.setTarget req, faults)).committed = c' := hc'
      have hmoved := h.point hpoint
      rw [hcommitted, Server.moved, hrespond]
      split
      · rename_i hsel
        rwa [if_pos hsel] at hmoved
      · rename_i hsel
        rwa [if_neg hsel] at hmoved
    · exact absurd hstep hlost

/-- The run lemma. -/
theorem follows_foldl_next {clocks : Clocks} (hclock : StrictMono clocks.updated)
    {steps : List (ChangeStep Value)}
    (hsteps : Trace.AllMeet (Server.next storable sha) (RollsBack sha) (.empty clocks) steps)
    (sel : TargetSelector) :
    Follows sel (steps.foldl (Server.next storable sha) (.empty clocks)).committed
      (Server.lastMove storable sha sel (.empty clocks) steps) := by
  have hempty : Follows sel (Server.empty clocks : Server Value).committed none :=
    ⟨hclock, nofun, rfl⟩
  have hnext : ∀ (x : Server Value) step last, RollsBack sha x step →
      Follows sel x.committed last →
        Follows sel (x.next storable sha step).committed ((x.moved sha sel step).or last) :=
    fun _ _ _ hstep h => h.next hstep
  have hlast := Trace.rel_last (R := fun x : Server Value => Follows sel x.committed) hnext hsteps
    hempty
  rwa [Option.or_none] at hlast

end Steps

/-! ## What the handlers answer -/

/-- What a response says about a move, with the release that it pointed the target at. -/
def ChannelTargetRef.state (ref : ChannelTargetRef) (r : VehicleRelease Value) :
    ChannelTargetState Value :=
  ⟨ref.channel, some ref.device, some ref.architecture, some r.ref, some r.ref, some ref.treeHash,
    r.configSnapshot⟩

/-- The state of a channel is that of its last move, or unset if there was none. -/
def Catalog.Shows (c : Catalog Value) (state : ChannelTargetState Value) :
    Option ChannelTargetRef → Prop
  | none => state = ⟨state.channel, none, none, none, none, none, none⟩
  | some ref => ∃ r, c.releases.vehicleRelease ref.vehicleReleaseId = some r ∧ state = ref.state r

/-- Of one target, the state of its last move is listed, or nothing if there was none. -/
def Catalog.Lists (c : Catalog Value) (states : List (ChannelTargetState Value)) :
    Option ChannelTargetRef → Prop
  | none => states = []
  | some ref => ∃ state, states = [state] ∧ c.Shows state (some ref)

section Answers

variable {sel : TargetSelector} {c : Catalog Value} {last : Option ChannelTargetRef}
  {x y : Server Value} {faults rest : List (Option (Fault SqlError))}

/-- Every channel row has its release. -/
theorem Catalog.exists_vehicleRelease {t : ChannelTarget} (ht : t ∈ c.channelTargets.rows) :
    ∃ r, c.releases.vehicleRelease t.vehicleReleaseId = some r := by
  obtain ⟨r, hr, hid⟩ := c.channelRelease t ht
  exact ⟨r, Db.vehicleRelease_eq_some_iff.mpr ⟨hr, hid⟩⟩

/-- The element that is greater than all others is the greatest. -/
theorem argmax_eq_some_of_lt {ρ : Type} {f : ρ → ℕ} {l : List ρ} {r : ρ} (hr : r ∈ l)
    (hlt : ∀ r' ∈ l, r' ≠ r → f r' < f r) : l.argmax f = some r := by
  cases hmax : l.argmax f with
  | none =>
    rw [List.argmax_eq_none.mp hmax] at hr
    cases hr
  | some m =>
    by_contra hne
    have hm : m ≠ r := fun h => hne (h ▸ rfl)
    have hle := List.le_of_mem_argmax hr (Option.mem_def.mpr hmax)
    have hgt := hlt m (List.argmax_mem hmax) hm
    omega

/-- The rows that a lookup selects are those that the selector admits, each with its release. -/
theorem Catalog.mem_selectedTargets {channel : String} (hchannel : sel.channel = some channel)
    {t : ChannelTarget} {r : VehicleRelease Value} :
    (t, r) ∈ c.selectedTargets channel sel.device sel.architecture ↔
      t ∈ c.admitted sel ∧ c.releases.vehicleRelease t.vehicleReleaseId = some r := by
  simp only [Catalog.selectedTargets, Catalog.targetsOf, Catalog.admitted, TargetSelector.Admits,
    hchannel, List.mem_filterMap, List.mem_filter, Option.map_eq_some_iff, Prod.mk.injEq,
    Option.some.injEq, decide_eq_true_eq]
  constructor
  · rintro ⟨_, ⟨⟨hmem, hc⟩, hpair⟩, _, hr, rfl, rfl⟩
    exact ⟨⟨hmem, hc.symm, hpair⟩, hr⟩
  · rintro ⟨⟨hmem, hc, hpair⟩, hr⟩
    exact ⟨t, ⟨⟨hmem, hc.symm⟩, hpair⟩, r, hr, rfl, rfl⟩

/-- The lookup of a channel answers with the last move that its selector admits. -/
theorem Follows.getChannelTarget (h : Follows sel x.committed last)
    {state : ChannelTargetState Value}
    (hrun : (getChannelTarget sel).run (catalogDb .insertion) faults x = (.ok state, rest, y)) :
    sel.channel = some state.channel ∧ x.committed.Shows state last := by
  obtain ⟨channel, _, _, hlift, hrun⟩ := Prog.run_bind_eq_ok_iff.mp hrun
  obtain ⟨hchannel, rfl, rfl⟩ := Prog.run_lift_eq_ok_iff.mp hlift
  obtain ⟨found, _, _, hperform, hrun⟩ := Prog.run_bind_eq_ok_iff.mp hrun
  obtain ⟨-, hresult, rfl⟩ := of_run_perform_eq_ok hperform (exec_latestTarget .insertion x _ _ _)
  have hsel : sel.channel = some channel := by
    revert hchannel
    cases sel.channel <;> simp
  have hfound : (x.committed.selectedTargets channel sel.device sel.architecture).argmax
      (fun row => row.1.updatedAt) = found := Except.ok.inj hresult
  cases last with
  | none =>
    -- There is nothing to select from.
    have hnil : x.committed.selectedTargets channel sel.device sel.architecture = [] := by
      refine List.eq_nil_iff_forall_not_mem.mpr fun row hrow => ?_
      have hmem := ((Catalog.mem_selectedTargets hsel).mp hrow).1
      rw [show x.committed.admitted sel = [] from h.latest] at hmem
      cases hmem
    rw [hnil] at hfound
    obtain rfl : none = found := hfound
    cases hrun
    exact ⟨hsel, rfl⟩
  | some ref =>
    obtain ⟨t, ht, rfl, hlast⟩ := h.latest
    obtain ⟨r, hr⟩ := Catalog.exists_vehicleRelease (List.mem_of_mem_filter ht)
    have hmax := argmax_eq_some_of_lt (f := fun row => row.1.updatedAt)
      ((Catalog.mem_selectedTargets hsel).mpr ⟨ht, hr⟩) fun row hrow hne => by
        obtain ⟨hmem, hrel⟩ := (Catalog.mem_selectedTargets hsel).mp hrow
        refine hlast row.1 hmem fun heq => hne (Prod.ext heq ?_)
        rw [heq, hr] at hrel
        exact (Option.some.inj hrel).symm
    rw [hmax] at hfound
    obtain rfl : some (t, r) = found := hfound
    cases hrun
    have hkey := of_decide_eq_true (List.mem_filter.mp ht).2
    obtain rfl : t.channel = channel := Option.some.inj (hkey.1.symm.trans hsel)
    exact ⟨hsel, r, hr, rfl⟩

/-! ### One target -/

variable {channel device architecture : String}

/-- The selector of one target admits it and no other. -/
theorem mem_admitted_exact {t : ChannelTarget} :
    t ∈ c.admitted (.exact channel device architecture) ↔
      t ∈ c.channelTargets.rows ∧ t.channel = channel ∧ t.device = device ∧
        t.architecture = architecture := by
  rw [Catalog.admitted, List.mem_filter, decide_eq_true_eq]
  constructor
  · rintro ⟨hmem, hchannel, hdevice, harchitecture⟩
    exact ⟨hmem, (Option.some.inj hchannel).symm, hdevice _ rfl, harchitecture _ rfl⟩
  · rintro ⟨hmem, rfl, rfl, rfl⟩
    exact ⟨hmem, rfl, fun _ => Option.some.inj, fun _ => Option.some.inj⟩

/-- Looking one target up by its key answers with its last move. -/
theorem Follows.findTarget (h : Follows (.exact channel device architecture) c last) :
    (c.findTarget channel device architecture).map (·.answer) = last := by
  cases last with
  | none =>
    cases hfind : c.findTarget channel device architecture with
    | none => rfl
    | some t =>
      have hmem := mem_admitted_exact.mpr (Catalog.findTarget_eq_some_iff.mp hfind)
      rw [show c.admitted _ = [] from h.latest] at hmem
      cases hmem
  | some ref =>
    obtain ⟨t, ht, rfl, -⟩ := h.latest
    rw [Catalog.findTarget_eq_some_iff.mpr (mem_admitted_exact.mp ht)]
    rfl

/-- The rows of one target: none, or the one of its last move. -/
theorem Follows.admitted_exact (h : Follows (.exact channel device architecture) c last) :
    (last = none ∧ c.admitted (.exact channel device architecture) = []) ∨
      ∃ t ∈ c.channelTargets.rows, last = some t.answer ∧
        c.admitted (.exact channel device architecture) = [t] := by
  cases last with
  | none => exact .inl ⟨rfl, h.latest⟩
  | some ref =>
    obtain ⟨t, ht, rfl, -⟩ := h.latest
    obtain ⟨hmem, hkey⟩ := mem_admitted_exact.mp ht
    refine .inr ⟨t, hmem, rfl, ?_⟩
    -- The primary key of the table is the whole selector.
    refine Table.filter_eq_singleton (by simp [ChannelTarget.Clash]) hmem
      (List.mem_filter.mp ht).2 fun t' ht' hadmits => ?_
    obtain ⟨-, hkey'⟩ := mem_admitted_exact.mp (List.mem_filter.mpr ⟨ht', hadmits⟩)
    exact Table.eq_of_clash (by grind [ChannelTarget.Clash]) ht' hmem
      (by grind [ChannelTarget.Clash])

/-- What is listed for one target comes from the rows of that target. -/
theorem perm_channels_exact (c : Catalog Value) (channel device architecture : String)
    (collate : String → String → Bool) :
    ((c.channels collate).filter fun row => row.1.channel = channel ∧ row.1.device = device ∧
      row.1.architecture = architecture).Perm
      ((c.admitted (.exact channel device architecture)).filterMap fun t =>
        (c.releases.vehicleRelease t.vehicleReleaseId).map fun r => (t, r)) := by
  refine ((List.mergeSort_perm _ _).filter _).trans ?_
  rw [List.filter_filterMap, Catalog.admitted, List.filterMap_filter]
  refine .of_eq (List.filterMap_congr fun t _ => ?_)
  have hkey : TargetSelector.Admits (.exact channel device architecture) t.channel t.device
      t.architecture ↔ t.channel = channel ∧ t.device = device ∧ t.architecture = architecture := by
    simp [TargetSelector.Admits, TargetSelector.exact, @eq_comm _ channel]
  cases c.releases.vehicleRelease t.vehicleReleaseId with
  | none => simp
  | some r => simp [Option.filter, hkey]

/-- The listing has one target at most once, as its last move left it. -/
theorem Follows.channels (h : Follows (.exact channel device architecture) c last)
    (collate : String → String → Bool) :
    c.Lists (((c.channels collate).map fun row => row.1.state row.2).filter fun state =>
      state.channel = channel ∧ state.device = some device ∧
        state.architecture = some architecture) last := by
  have hfilter : ((c.channels collate).map fun row => row.1.state row.2).filter (fun state =>
      state.channel = channel ∧ state.device = some device ∧
        state.architecture = some architecture) =
      ((c.channels collate).filter fun row => row.1.channel = channel ∧ row.1.device = device ∧
        row.1.architecture = architecture).map fun row => row.1.state row.2 := by
    rw [List.filter_map]
    simp [Function.comp_def, ChannelTarget.state]
  have hperm := perm_channels_exact c channel device architecture collate
  rw [hfilter]
  rcases h.admitted_exact with ⟨rfl, hnil⟩ | ⟨t, ht, rfl, hone⟩
  · rw [hnil] at hperm
    rw [hperm.eq_nil]
    rfl
  · obtain ⟨r, hr⟩ := Catalog.exists_vehicleRelease ht
    rw [hone, List.filterMap_cons_some (by rw [hr]; rfl)] at hperm
    rw [List.perm_singleton.mp hperm]
    exact ⟨_, rfl, r, hr, rfl⟩

end Answers

/-- The state of the channel of the sample after its second move. -/
def movedState : ChannelTargetState Unit :=
  ⟨"stable", some "rig", some "arm64", some ⟨2, "rig", "2", 2⟩, some ⟨2, "rig", "2", 2⟩,
    some (treeHash movesSha .empty), none⟩

end SoftwareTower
