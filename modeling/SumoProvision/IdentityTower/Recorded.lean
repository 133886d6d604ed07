import SumoProvision.IdentityTower.Devices

/-!
# What a sequence of requests leaves

The key of a device is written by two handlers and the certificate of a key slot by one, each in
place of what was there. If no reply of the database is lost, then after any sequence of requests a
device has a row iff a registration succeeded (`isSome_find_foldl_next_iff`), and the key and the
certificates of the last requests that succeeded (`pubkeyOf_foldl_next`, `certOf_foldl_next`).
-/

namespace IdentityTower

open Wire SoftwareTower

/-! ## Writes -/

namespace Roster

variable {x y : Roster} {id : String}

/-- The certificate of a key slot. -/
def certOf (x : Roster) (id keyId : String) : Option Bytes :=
  (x.certs.rows.find? fun c => c.deviceId = id ∧ c.keyId = keyId).map (·.certDer)

theorem find_modifyDevice {f : Device → Device} (hf : ∀ d, (f d).id = d.id) (id' : String) :
    (x.modifyDevice id f hf).find id' =
      (x.find id').map fun d => if d.id = id then f d else d := by
  have hid : ∀ d : Device, (if d.id = id then f d else d).id = d.id := by
    intro d
    split
    · exact hf d
    · rfl
  rw [find, rows_modifyDevice, List.find?_map, find]
  simp only [Function.comp_def, hid]

/-- The row of a device after an upsert that succeeds. -/
theorem find_upsertDevice {model pubkey : Option String} {d : Device}
    (h : x.upsertDevice id model pubkey = (.ok d, y)) (id' : String) :
    y.find id' = if id' = id then some (((x.find id).map (·.updated model pubkey)).getD
      ⟨id, model, .registered, pubkey⟩) else x.find id' := by
  unfold upsertDevice at h
  dsimp only at h
  split at h
  · cases hfind : x.find id with
    | some old =>
      -- The conflict branch of the upsert: the row of the id is updated in place.
      rw [hfind] at h
      cases h
      rw [find_modifyDevice]
      split
      · rename_i heq
        subst heq
        simp [hfind, (find_eq_some_iff.mp hfind).2]
      · rename_i hne
        cases hfind' : x.find id' with
        | none => rfl
        | some d' =>
          have hd' : d'.id ≠ id := fun hid => hne ((find_eq_some_iff.mp hfind').2.symm.trans hid)
          simp [hd']
    | none =>
      -- A new row, behind all the others.
      rw [hfind] at h
      dsimp only at h
      split at h
      · cases h
        simp only [find, addDevice, Table.rows_insert, List.find?_append]
        rw [find] at hfind
        split
        · rename_i heq
          subst heq
          simp [hfind]
        · rename_i hne
          simp [Ne.symm hne]
      · cases h
  · cases h

/-- The key after an upsert that succeeds. -/
theorem pubkeyOf_upsertDevice {model pubkey : Option String} {d : Device}
    (h : x.upsertDevice id model pubkey = (.ok d, y)) (id' : String) :
    y.pubkeyOf id' = if id' = id then pubkey.or (x.pubkeyOf id) else x.pubkeyOf id' := by
  rw [pubkeyOf, find_upsertDevice h]
  split
  · cases hfind : x.find id with
    | none => simp [pubkeyOf, hfind]
    | some old => simp [pubkeyOf, hfind, Device.updated]
  · rfl

/-- The row of a device after an enrollment. -/
theorem find_enrollDevice {pubkey : String} {n : ℕ} (h : x.enrollDevice id pubkey = (.ok n, y))
    (id' : String) :
    y.find id' = if id' = id then (x.find id).map (·.enroll pubkey) else x.find id' := by
  unfold enrollDevice at h
  split at h
  · cases h
    rw [find_modifyDevice]
    cases hfind : x.find id' with
    | none =>
      split
      · rename_i heq
        subst heq
        simp [hfind]
      · rfl
    | some d =>
      obtain ⟨-, rfl⟩ := find_eq_some_iff.mp hfind
      split
      · rename_i heq
        subst heq
        simp [hfind]
      · rename_i hne
        simp [hne]
  · cases h

/-- An enrollment changes a row iff the device has one. -/
theorem enrollDevice_ne_zero_iff {pubkey : String} {n : ℕ}
    (h : x.enrollDevice id pubkey = (.ok n, y)) : n ≠ 0 ↔ (x.find id).isSome := by
  unfold enrollDevice at h
  split at h
  · cases h
    rw [find, List.find?_isSome, ← Nat.pos_iff_ne_zero, List.length_filter_pos_iff]
  · cases h

/-- The key after an enrollment of so many rows. -/
theorem pubkeyOf_enrollDevice {pubkey : String} {n : ℕ}
    (h : x.enrollDevice id pubkey = (.ok n, y)) (id' : String) :
    y.pubkeyOf id' = if id' = id ∧ n ≠ 0 then some pubkey else x.pubkeyOf id' := by
  have hn := enrollDevice_ne_zero_iff h
  rw [pubkeyOf, find_enrollDevice h]
  by_cases hid : id' = id
  · subst hid
    cases hfind : x.find id' with
    | none => simp [hn, pubkeyOf, hfind]
    | some d => simp [hn, hfind, Device.enroll]
  · simp [hid, pubkeyOf]

/-- The certificate of a slot after an upsert that succeeds. -/
theorem certOf_upsertCert {cert : DeviceCert} (h : x.upsertCert cert = (.ok (), y))
    (id keyId : String) :
    y.certOf id keyId = if id = cert.deviceId ∧ keyId = cert.keyId then some cert.certDer
      else x.certOf id keyId := by
  unfold upsertCert at h
  extract_lets row old rows at h
  have hrows : y.certs.rows = rows := by
    split at h
    · split at h
      · split at h
        · cases h
          rfl
        · cases h
      · cases h
    · cases h
  rw [certOf, hrows, certOf]
  dsimp only [rows]
  split
  · -- The row of the slot is replaced in its place.
    rename_i hany
    rw [List.find?_map]
    have hkey : ((fun c : DeviceCert => decide (c.deviceId = id ∧ c.keyId = keyId)) ∘
        fun c => if old c = true then row else c) =
          fun c => decide (c.deviceId = id ∧ c.keyId = keyId) := by
      funext c
      by_cases hold : old c = true
      · obtain ⟨hdevice, hslot⟩ := of_decide_eq_true hold
        simp [hold, hdevice, hslot]
      · simp [hold]
    rw [hkey, Option.map_map]
    split
    · rename_i heq
      obtain ⟨rfl, rfl⟩ := heq
      obtain ⟨c, hc, hold⟩ := List.any_eq_true.mp hany
      cases hfind : x.certs.rows.find? fun c =>
          decide (c.deviceId = cert.deviceId ∧ c.keyId = cert.keyId) with
      | none => exact absurd hold (List.find?_eq_none.mp hfind c hc)
      | some c' =>
        have hold' : old c' = true := List.find?_some hfind
        simp [hold', row]
    · rename_i hne
      cases hfind : x.certs.rows.find? fun c => decide (c.deviceId = id ∧ c.keyId = keyId) with
      | none => rfl
      | some c' =>
        obtain ⟨rfl, rfl⟩ : c'.deviceId = id ∧ c'.keyId = keyId := by
          simpa using List.find?_some hfind
        have hold' : old c' = false := by simpa [old, row] using hne
        simp [hold']
  · rename_i hany
    rw [List.find?_append]
    split
    · rename_i heq
      obtain ⟨rfl, rfl⟩ := heq
      have hnone : x.certs.rows.find? (fun c =>
          decide (c.deviceId = cert.deviceId ∧ c.keyId = cert.keyId)) = none := by
        simpa [old, row] using hany
      rw [hnone]
      simp [row]
    · rename_i hne
      have hrow : ¬ (cert.deviceId = id ∧ cert.keyId = keyId) :=
        fun heq => hne ⟨heq.1.symm, heq.2.symm⟩
      simp [row, hrow]

theorem upsertDevice_snd_of_error {model pubkey : Option String} {e : SqlError}
    (h : x.upsertDevice id model pubkey = (.error e, y)) : y = x := by
  unfold upsertDevice at h
  dsimp only at h
  split at h
  · split at h
    · cases h
    · split at h
      · cases h
      · cases h
        rfl
  · cases h
    rfl

theorem enrollDevice_snd_of_error {pubkey : String} {e : SqlError}
    (h : x.enrollDevice id pubkey = (.error e, y)) : y = x := by
  unfold enrollDevice at h
  split at h
  · cases h
  · cases h
    rfl

theorem upsertCert_snd_of_error {cert : DeviceCert} {e : SqlError}
    (h : x.upsertCert cert = (.error e, y)) : y = x := by
  unfold upsertCert at h
  extract_lets _ _ rows at h
  split at h
  · split at h
    · split at h
      · cases h
      · cases h
        rfl
    · cases h
      rfl
  · cases h
    rfl

end Roster

/-- A statement that fails leaves the roster as it is. -/
theorem atomic_rosterDb : rosterDb.Atomic where
  failed := by
    rintro (_ | _ | _ | _) x e h
    · exact Roster.upsertDevice_snd_of_error (Prod.ext h rfl)
    · exact Roster.enrollDevice_snd_of_error (Prod.ext h rfl)
    · exact Roster.selectDevice_snd
    · exact Roster.upsertCert_snd_of_error (Prod.ext h rfl)
  torn _ _ _ := rfl

/-! ## Requests -/

/-- No reply of the database to the request is lost. -/
def Answered (step : Request × Faults) : Prop :=
  ∀ why, some (.lost why) ∉ step.2

/-- The request registers a device, and succeeds. -/
def Registers (id : String) (t : Tower) : Request × Faults → Prop
  | (.register req, faults) =>
    req.id = id ∧ ((registerDevice req).run rosterDb faults t.roster).1.isOk = true
  | (.enroll .., _) => False

/-- The certificate that the CA issues for a key slot. -/
def Ca.leafFor (ca : Ca) (id keyId : String) (csr : Bytes) : Except String IssuedCert :=
  ca.issueLeaf id csr (if keyId = "tls-identity" then .mtls else .client)

namespace Tower

/-- The key that a request records for a device, if it succeeds. -/
def recorded (ca : Ca) (id : String) (t : Tower) : Request × Faults → Option String
  | (.register req, faults) =>
    if req.id = id ∧ ((registerDevice req).run rosterDb faults t.roster).1.isOk then req.pubkey
    else none
  | (.enroll id' keyId csr, faults) =>
    if id' = id ∧ keyId = "device-decrypt" ∧
        ((enrollDevice ca id' keyId csr).run rosterDb faults t.roster).1.isOk then
      (recordedKey ca csr).toOption
    else none

/-- The certificate that a request stores for a key slot, if it succeeds. -/
def issued (ca : Ca) (id keyId : String) (t : Tower) : Request × Faults → Option Bytes
  | (.register _, _) => none
  | (.enroll id' keyId' csr, faults) =>
    if id' = id ∧ keyId' = keyId ∧ keyId ≠ "device-decrypt" ∧
        ((enrollDevice ca id' keyId' csr).run rosterDb faults t.roster).1.isOk then
      (ca.leafFor id keyId csr).toOption.map (·.der)
    else none

/-- The key that the last of the requests recorded for a device. -/
def lastRecorded (ca : Ca) (id : String) (steps : List (Request × Faults)) : Option String :=
  Trace.last (next ca) (recorded ca id) .empty steps

/-- The certificate that the last of the requests stored for a key slot. -/
def lastIssued (ca : Ca) (id keyId : String) (steps : List (Request × Faults)) : Option Bytes :=
  Trace.last (next ca) (issued ca id keyId) .empty steps

end Tower

/-- The statements of an enrollment for `device-decrypt`. -/
def EnrollsDecrypt : RosterSql → Prop
  | .enrollDevice .. => True
  | _ => False

theorem issues_enrollDecrypt (ca : Ca) (id : String) (csr : Bytes) :
    (enrollDecrypt ca id csr).Issues EnrollsDecrypt := by
  unfold enrollDecrypt
  cases recordedKey ca csr with
  | error e => trivial
  | ok pubkey =>
    have hstmt : EnrollsDecrypt (.enrollDevice id pubkey) := trivial
    refine (Prog.issues_perform hstmt _).bind fun rows => ?_
    dsimp only
    split <;> trivial

section Steps

variable {ca : Ca} {t : Tower} {faults : Faults}

theorem pubkeyOf_register (hfaults : ∀ why, some (.lost why) ∉ faults) (req : RegisterDevice)
    (id : String) :
    (t.next ca (.register req, faults)).roster.pubkeyOf id =
      (t.recorded ca id (.register req, faults)).or (t.roster.pubkeyOf id) := by
  change ((registerDevice req).run rosterDb faults t.roster).2.2.pubkeyOf id = _
  rw [Tower.recorded]
  rcases Prog.run_perform_atomic atomic_rosterDb hfaults
    (.upsertDevice req.id req.model req.pubkey) AppError.internal t.roster with
    ⟨e, hrun⟩ | ⟨d, y, hexec, hrun⟩
  · rw [registerDevice, hrun]
    simp [Except.isOk, Except.toBool]
  · rw [registerDevice, hrun]
    rw [Roster.pubkeyOf_upsertDevice hexec]
    by_cases hid : id = req.id
    · subst hid
      simp [Except.isOk, Except.toBool]
    · simp [hid, Ne.symm hid]

/-- An enrollment for `device-decrypt` that succeeds has written the key. -/
theorem pubkeyOf_enrollDecrypt (hfaults : ∀ why, some (.lost why) ∉ faults) (id' : String)
    (csr : Bytes) (id : String) :
    (t.next ca (.enroll id' "device-decrypt" csr, faults)).roster.pubkeyOf id =
      (t.recorded ca id (.enroll id' "device-decrypt" csr, faults)).or (t.roster.pubkeyOf id) := by
  change ((enrollDevice ca id' "device-decrypt" csr).run rosterDb faults t.roster).2.2.pubkeyOf id
    = _
  rw [Tower.recorded, enrollDevice, if_pos rfl, enrollDecrypt]
  cases hkey : recordedKey ca csr with
  | error e =>
    change t.roster.pubkeyOf id = _
    simp [Except.toOption]
  | ok pubkey =>
    rw [Prog.run_bind_of_ok (Prog.run_lift_eq_ok_iff.mpr ⟨rfl, rfl, rfl⟩)]
    rcases Prog.run_perform_bind_atomic atomic_rosterDb hfaults (.enrollDevice id' pubkey)
      AppError.internal _ t.roster with ⟨e, hrun⟩ | ⟨n, y, hexec, hrun⟩
    · rw [hrun]
      simp [Except.isOk, Except.toBool]
    · rw [hrun]
      have hwritten := Roster.pubkeyOf_enrollDevice hexec id
      by_cases hn : n = 0
      · rw [if_pos hn]
        simpa [hn, Except.isOk, Except.toBool] using hwritten
      · rw [if_neg hn]
        by_cases hid : id = id'
        · simpa [hn, hid, Except.isOk, Except.toBool, Except.toOption] using hwritten
        · simpa [hn, hid, Ne.symm hid] using hwritten

/-- The step lemma for the rows. -/
theorem isSome_find_next_iff (step : Request × Faults) (hstep : Answered step) (id : String) :
    ((t.next ca step).roster.find id).isSome ↔ (t.roster.find id).isSome ∨ Registers id t step := by
  obtain ⟨req | ⟨id', keyId, csr⟩, faults⟩ := step
  · change (((registerDevice req).run rosterDb faults t.roster).2.2.find id).isSome ↔ _
    rw [Registers]
    rcases Prog.run_perform_atomic atomic_rosterDb hstep
      (.upsertDevice req.id req.model req.pubkey) AppError.internal t.roster with
      ⟨e, hrun⟩ | ⟨d, y, hexec, hrun⟩
    · rw [registerDevice, hrun]
      simp [Except.isOk, Except.toBool]
    · rw [registerDevice, hrun, Roster.find_upsertDevice hexec]
      by_cases hid : id = req.id
      · simp [hid, Except.isOk, Except.toBool]
      · simp [hid, Ne.symm hid]
  · -- No statement of an enrollment adds or deletes a device row.
    simp only [Registers, or_false]
    refine Prog.run_invariant (S := rosterSql)
      (I := fun x : Roster => (x.find id).isSome ↔ (t.roster.find id).isSome) ?_
      (issues_enrollDevice ca id' keyId csr) faults Iff.rfl
    rintro (_ | ⟨id'', pubkey⟩ | _ | cert) hs x hx
    · exact hs.elim
    · refine ⟨?_, fun _ => hx⟩
      rw [← hx]
      change ((x.enrollDevice id'' pubkey).2.find id).isSome ↔ _
      rcases hexec : x.enrollDevice id'' pubkey with ⟨e | n, y⟩
      · rw [Roster.enrollDevice_snd_of_error hexec]
      · rw [Roster.find_enrollDevice hexec]
        split
        · rename_i hid
          simp [hid]
        · rfl
    · exact ⟨by simpa [rosterDb] using hx, fun _ => hx⟩
    · refine ⟨?_, fun _ => hx⟩
      change ((x.upsertCert cert).2.find id).isSome ↔ _
      rw [Roster.find, Roster.devices_upsertCert]
      exact hx

/-- An enrollment for another key slot leaves the keys. -/
theorem pubkeyOf_enrollCert {keyId : String} (hkey : keyId ≠ "device-decrypt") (id' : String)
    (csr : Bytes) (id : String) :
    (t.next ca (.enroll id' keyId csr, faults)).roster.pubkeyOf id = t.roster.pubkeyOf id := by
  refine Prog.run_invariant (S := rosterSql)
    (I := fun x : Roster => x.pubkeyOf id = t.roster.pubkeyOf id) ?_
    (issues_enrollDevice ca id' keyId csr) faults rfl
  rintro (_ | ⟨_, pubkey⟩ | id | cert) hs x hx
  · exact hs.elim
  · exact absurd hs.2.1 hkey
  · exact ⟨by simpa [rosterDb] using hx, fun _ => hx⟩
  · refine ⟨?_, fun _ => hx⟩
    change (x.upsertCert cert).2.pubkeyOf id = _
    rw [Roster.pubkeyOf, Roster.find, Roster.devices_upsertCert]
    exact hx

/-- The step lemma for the keys. -/
theorem pubkeyOf_next (step : Request × Faults) (hstep : Answered step) (id : String) :
    (t.next ca step).roster.pubkeyOf id = (t.recorded ca id step).or (t.roster.pubkeyOf id) := by
  obtain ⟨req | ⟨id', keyId, csr⟩, faults⟩ := step
  · exact pubkeyOf_register hstep req id
  · by_cases hkey : keyId = "device-decrypt"
    · subst hkey
      exact pubkeyOf_enrollDecrypt hstep id' csr id
    · rw [pubkeyOf_enrollCert hkey, Tower.recorded, if_neg fun h => hkey h.2.1, Option.none_or]

/-- A registration leaves the certificates. -/
theorem certs_register (req : RegisterDevice) :
    (t.next ca (.register req, faults)).roster.certs = t.roster.certs :=
  Service.forall_answer (S := rosterSql) (s := .upsertDevice req.id req.model req.pubkey)
    (P := fun x : Roster => x.certs = t.roster.certs) rfl (by simp [rosterDb]) (fun _ => rfl) _

/-- So does an enrollment for `device-decrypt`. -/
theorem certs_enrollDecrypt (id : String) (csr : Bytes) :
    (t.next ca (.enroll id "device-decrypt" csr, faults)).roster.certs = t.roster.certs := by
  rw [Tower.next, Request.apply, enrollDevice, if_pos rfl]
  refine Prog.run_invariant (S := rosterSql) (P := EnrollsDecrypt)
    (I := fun x : Roster => x.certs = t.roster.certs) ?_ (issues_enrollDecrypt ca id csr) faults rfl
  rintro (_ | ⟨id', pubkey⟩ | _ | _) hs x hx
  · exact hs.elim
  · exact ⟨by simpa [rosterDb] using hx, fun _ => hx⟩
  · exact hs.elim
  · exact hs.elim

/-- An enrollment for another key slot that succeeds has stored the certificate. -/
theorem certOf_enrollCert (hfaults : ∀ why, some (.lost why) ∉ faults) {keyId' : String}
    (hkey : keyId' ≠ "device-decrypt") (id' : String) (csr : Bytes) (id keyId : String) :
    (t.next ca (.enroll id' keyId' csr, faults)).roster.certOf id keyId =
      (t.issued ca id keyId (.enroll id' keyId' csr, faults)).or (t.roster.certOf id keyId) := by
  change ((enrollDevice ca id' keyId' csr).run rosterDb faults t.roster).2.2.certOf id keyId = _
  have hleaf : ca.issueLeaf id' csr (if keyId' = "tls-identity" then .mtls else .client) =
      ca.leafFor id' keyId' csr := rfl
  rw [Tower.issued, enrollDevice, if_neg hkey, enrollCert]
  dsimp only
  rw [hleaf]
  -- The statements in order: the leaf, the device, the certificate. A request that stops at one of
  -- the first two has issued nothing and stored nothing.
  cases hissued : ca.leafFor id' keyId' csr with
  | error e =>
    change t.roster.certOf id keyId = _
    split
    · rename_i hsucceeds
      obtain ⟨rfl, rfl, -⟩ := hsucceeds
      rw [hissued]
      rfl
    · rfl
  | ok issued =>
    rw [Except.mapError_ok, Prog.run_bind_of_ok (Prog.run_lift_eq_ok_iff.mpr ⟨rfl, rfl, rfl⟩)]
    rcases Prog.run_perform_bind_atomic atomic_rosterDb hfaults (.selectDevice id')
      AppError.internal _ t.roster with ⟨e, hrun⟩ | ⟨known, x, hexec, hrun⟩
    · rw [hrun]
      simp [Except.isOk, Except.toBool]
    · obtain rfl : t.roster = x := Roster.selectDevice_snd.symm.trans (congrArg Prod.snd hexec)
      rw [hrun]
      cases known with
      | false => simp [Except.isOk, Except.toBool]
      | true =>
        rw [if_pos rfl]
        rcases Prog.run_execute_bind_atomic atomic_rosterDb
          (fun why h => hfaults why (List.mem_of_mem_tail h)) (.upsertCert _) AppError.internal _
          t.roster with ⟨e, hstore⟩ | ⟨_, y, hexec', hstore⟩
        · rw [hstore]
          simp [Except.isOk, Except.toBool]
        · rw [hstore]
          have hwritten := Roster.certOf_upsertCert hexec' id keyId
          change y.certOf id keyId = _
          rw [hwritten]
          by_cases hslot : id = id' ∧ keyId = keyId'
          · obtain ⟨rfl, rfl⟩ := hslot
            simp [hkey, hissued, Except.isOk, Except.toBool, Except.toOption]
          · rw [if_neg hslot, if_neg fun h => hslot ⟨h.1.symm, h.2.1.symm⟩]
            rfl

/-- The step lemma for the certificates. -/
theorem certOf_next (step : Request × Faults) (hstep : Answered step) (id keyId : String) :
    (t.next ca step).roster.certOf id keyId =
      (t.issued ca id keyId step).or (t.roster.certOf id keyId) := by
  obtain ⟨req | ⟨id', keyId', csr⟩, faults⟩ := step
  · rw [Roster.certOf, certs_register]
    rfl
  · by_cases hkey : keyId' = "device-decrypt"
    · subst hkey
      have hnone : t.issued ca id keyId (.enroll id' "device-decrypt" csr, faults) = none :=
        if_neg fun h => h.2.2.1 h.2.1.symm
      rw [Roster.certOf, certs_enrollDecrypt, hnone]
      rfl
    · exact certOf_enrollCert hstep hkey id' csr id keyId

end Steps

/-- The run lemma for the rows: a device has one iff a request has registered it. -/
theorem isSome_find_foldl_next_iff {ca : Ca} {steps : List (Request × Faults)}
    (hsteps : ∀ step ∈ steps, Answered step) (id : String) :
    ((steps.foldl (Tower.next ca) .empty).roster.find id).isSome ↔
      ¬ Trace.AllMeet (Tower.next ca) (fun t step => ¬ Registers id t step) .empty steps := by
  have hnext : ∀ (t : Tower) step, Answered step → (((t.next ca step).roster.find id).isSome ↔
      (t.roster.find id).isSome ∨ Registers id t step) :=
    fun t step hstep => isSome_find_next_iff step hstep id
  rw [Trace.holds_foldl_iff (P := fun t : Tower => (t.roster.find id).isSome) hnext hsteps]
  simp [Tower.empty, Roster.empty, Roster.find]

/-- The run lemma for the keys: the key of a device is the last one that was recorded. -/
theorem pubkeyOf_foldl_next {ca : Ca} {steps : List (Request × Faults)}
    (hsteps : ∀ step ∈ steps, Answered step) (id : String) :
    (steps.foldl (Tower.next ca) .empty).roster.pubkeyOf id = Tower.lastRecorded ca id steps := by
  have hnext : ∀ (t : Tower) step pubkey, Answered step → t.roster.pubkeyOf id = pubkey →
      (t.next ca step).roster.pubkeyOf id = (t.recorded ca id step).or pubkey := by
    rintro t step _ hstep rfl
    exact pubkeyOf_next step hstep id
  have hrun := Trace.rel_last hnext (Trace.allMeet_of_forall hsteps .empty) (b := none) rfl
  rwa [Option.or_none] at hrun

/-- The run lemma for the certificates. -/
theorem certOf_foldl_next {ca : Ca} {steps : List (Request × Faults)}
    (hsteps : ∀ step ∈ steps, Answered step) (id keyId : String) :
    (steps.foldl (Tower.next ca) .empty).roster.certOf id keyId =
      Tower.lastIssued ca id keyId steps := by
  have hnext : ∀ (t : Tower) step cert, Answered step → t.roster.certOf id keyId = cert →
      (t.next ca step).roster.certOf id keyId = (t.issued ca id keyId step).or cert := by
    rintro t step _ hstep rfl
    exact certOf_next step hstep id keyId
  have hrun := Trace.rel_last hnext (Trace.allMeet_of_forall hsteps .empty) (b := none) rfl
  rwa [Option.or_none] at hrun

end IdentityTower
