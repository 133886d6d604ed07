import SumoProvision.SoftwareTower.Database

/-!
# The device roster

Tower 1 keeps a row for each device. `register_device` inserts or updates the row from an
administrator's request, and `enroll_device` writes the public key of a certificate signing request
after it has verified that the sender possesses the key. For every key slot but `device-decrypt` an
enrollment issues a certificate instead and leaves the row alone.

Both handlers write the column `pubkey`, but only `enroll_device` proves possession, and only it
writes the column `status`. `enrolled_proven` says in which sequences of requests an enrolled row
always has a proven key.
-/

namespace IdentityTower

open Wire SoftwareTower

/-! ## The roster -/

/-- The life cycle of a device. -/
inductive Status where
  | registered
  | enrolled
  deriving DecidableEq

/-- A row of `devices`. -/
structure Device where
  id : String
  model : Option String
  status : Status
  pubkey : Option String
  deriving DecidableEq

/-- The primary key of `devices`. -/
def Device.Clash (r r' : Device) : Prop :=
  r.id = r'.id

instance : DecidableRel Device.Clash := fun _ _ => inferInstanceAs (Decidable (_ = _))

/-- The row of a device after an upsert: a field that is not supplied keeps its value, and the
status is not touched. -/
def Device.updated (d : Device) (model pubkey : Option String) : Device :=
  { d with model := model.or d.model, pubkey := pubkey.or d.pubkey }

/-- The row of a device after an enrollment for `device-decrypt`. -/
def Device.enroll (d : Device) (pubkey : String) : Device :=
  { d with status := .enrolled, pubkey := some pubkey }

@[simp] theorem Device.id_updated (d : Device) (model pubkey : Option String) :
    (d.updated model pubkey).id = d.id := rfl

@[simp] theorem Device.id_enroll (d : Device) (pubkey : String) : (d.enroll pubkey).id = d.id := rfl

/-- A row of `device_certs`. -/
structure DeviceCert where
  deviceId : String
  keyId : String
  certDer : Bytes
  certSerial : Option String
  certNotAfter : Option String
  certFingerprint : Option String
  enrolledAt : ℕ
  deriving DecidableEq

/-- The primary key of `device_certs`, and the partial unique index on the serial number. -/
def DeviceCert.Clash (r r' : DeviceCert) : Prop :=
  (r.deviceId = r'.deviceId ∧ r.keyId = r'.keyId) ∨
    (r.certSerial ≠ none ∧ r.certSerial = r'.certSerial)

instance : DecidableRel DeviceCert.Clash := fun _ _ => inferInstanceAs (Decidable (_ ∨ _))

/-- The texts of the row are such as a `TEXT` column can hold. -/
def DeviceCert.NulFree (c : DeviceCert) : Prop :=
  SoftwareTower.NulFree c.deviceId ∧ SoftwareTower.NulFree c.keyId ∧
    (∀ s ∈ c.certSerial, SoftwareTower.NulFree s) ∧
    (∀ s ∈ c.certNotAfter, SoftwareTower.NulFree s) ∧
    ∀ s ∈ c.certFingerprint, SoftwareTower.NulFree s

instance (c : DeviceCert) : Decidable c.NulFree :=
  inferInstanceAs (Decidable (_ ∧ _ ∧ _ ∧ _ ∧ _))

/-- The tables of Tower 1 with the clock behind `now()`. -/
structure Roster where
  devices : Table Device Device.Clash
  certs : Table DeviceCert DeviceCert.Clash
  clock : ℕ
  certDevice : ∀ c ∈ certs.rows, ∃ d ∈ devices.rows, d.id = c.deviceId

namespace Roster

/-- The empty, migrated roster. -/
def empty : Roster where
  devices := .empty
  certs := .empty
  clock := 0
  certDevice := by simp

/-- The row of a device. -/
def find (x : Roster) (id : String) : Option Device :=
  x.devices.rows.find? fun d => d.id = id

/-- `SELECT pubkey FROM devices WHERE id = $1`: the key that the keystore of a device, and its
content keys, are wrapped to. -/
def pubkeyOf (x : Roster) (id : String) : Option String :=
  (x.find id).bind (·.pubkey)

/-- Change the row of a device, but not its id. -/
def modifyDevice (x : Roster) (id : String) (f : Device → Device) (hf : ∀ d, (f d).id = d.id) :
    Roster :=
  let g (d : Device) : Device := if d.id = id then f d else d
  have hg : ∀ d, (g d).id = d.id := fun d => by
    dsimp only [g]
    split
    · exact hf d
    · rfl
  { x with
    devices := x.devices.modify g fun d d' h => by simpa [Device.Clash, hg] using h
    certDevice := fun c hc => by
      obtain ⟨d, hd, hid⟩ := x.certDevice c hc
      exact ⟨g d, List.mem_map_of_mem hd, (hg d).trans hid⟩ }

/-- Add the row of a device that has none. -/
def addDevice (x : Roster) (row : Device) (hfree : x.devices.Free row) : Roster :=
  { x with
    devices := x.devices.insert row hfree
    certDevice := fun c hc => Table.exists_mem_insert (x.certDevice c hc) }

/-- `INSERT INTO devices … ON CONFLICT (id) DO UPDATE … RETURNING`. -/
def upsertDevice (x : Roster) (id : String) (model pubkey : Option String) :
    Except SqlError Device × Roster :=
  let row : Device := ⟨id, model, .registered, pubkey⟩
  if NulFree id ∧ (∀ s ∈ model, NulFree s) ∧ ∀ s ∈ pubkey, NulFree s then
    match x.find id with
    | some d =>
      (.ok (d.updated model pubkey),
        x.modifyDevice id (·.updated model pubkey) fun d => d.id_updated _ _)
    | none =>
      if hfree : x.devices.Free row then (.ok row, x.addDevice row hfree)
      else (.error (.uniqueViolation "devices_pkey"), x)
  else (.error .invalidInput, x)

/-- `UPDATE devices SET status='enrolled', pubkey=$2 WHERE id=$1`, with the number of rows. -/
def enrollDevice (x : Roster) (id pubkey : String) : Except SqlError ℕ × Roster :=
  if NulFree id ∧ NulFree pubkey then
    (.ok (x.devices.rows.filter (·.id = id)).length,
      x.modifyDevice id (·.enroll pubkey) fun d => d.id_enroll _)
  else (.error .invalidInput, x)

/-- `SELECT 1 FROM devices WHERE id=$1`. -/
def selectDevice (x : Roster) (id : String) : Except SqlError Bool × Roster :=
  if NulFree id then (.ok (x.find id).isSome, x) else (.error .invalidInput, x)

/-- `INSERT INTO device_certs … ON CONFLICT (device_id, key_id) DO UPDATE`. The row gets the time of
the statement. -/
def upsertCert (x : Roster) (cert : DeviceCert) : Except SqlError Unit × Roster :=
  let row := { cert with enrolledAt := x.clock }
  let old (c : DeviceCert) : Bool := c.deviceId = row.deviceId ∧ c.keyId = row.keyId
  -- The row of the slot is replaced in its place, or a new one is added.
  let rows := if x.certs.rows.any old then x.certs.rows.map fun c => if old c then row else c
    else x.certs.rows ++ [row]
  if row.NulFree then
    if hunique : rows.Pairwise fun r r' => ¬ DeviceCert.Clash r r' then
      if hdevice : ∀ c ∈ rows, ∃ d ∈ x.devices.rows, d.id = c.deviceId then
        (.ok (), { x with
          certs := ⟨rows, hunique⟩, clock := x.clock + 1, certDevice := hdevice })
      else (.error (.foreignKeyViolation "device_certs_device_id_fkey"), x)
    else (.error (.uniqueViolation "device_certs_serial_uq"), x)
  else (.error .invalidInput, x)

end Roster

/-- The SQL statements of the two handlers. -/
inductive RosterSql where
  | upsertDevice (id : String) (model pubkey : Option String)
  | enrollDevice (id pubkey : String)
  | selectDevice (id : String)
  | upsertCert (cert : DeviceCert)

/-- What a statement returns. -/
abbrev RosterSql.Reply : RosterSql → Type
  | .upsertDevice .. => Device
  | .enrollDevice .. => ℕ
  | .selectDevice .. => Bool
  | .upsertCert .. => Unit

/-- The statements with their replies and errors. -/
abbrev rosterSql : Signature :=
  ⟨RosterSql, RosterSql.Reply, SqlError⟩

/-- The database server of Tower 1. -/
def rosterDb : Service rosterSql Roster where
  exec
    | .upsertDevice id model pubkey, x => x.upsertDevice id model pubkey
    | .enrollDevice id pubkey, x => x.enrollDevice id pubkey
    | .selectDevice id, x => x.selectDevice id
    | .upsertCert cert, x => x.upsertCert cert

/-! ## The handlers -/

/-- The errors of Tower 1's API. -/
inductive AppError where
  | notFound
  | badRequest (message : String)
  | internal (e : SqlError)
  deriving DecidableEq

/-- `POST /admin/devices` body. -/
structure RegisterDevice where
  id : String
  model : Option String := none
  pubkey : Option String := none
  deriving DecidableEq

/-- `POST /admin/devices`. -/
def registerDevice (req : RegisterDevice) : Prog rosterSql AppError Device :=
  Prog.perform (S := rosterSql) (.upsertDevice req.id req.model req.pubkey) .internal

/-- A certificate signing request, as far as it is read. -/
structure CertReq where
  /-- The bytes of the subject public key, if it consists of whole bytes. -/
  publicKey : Option Bytes
  deriving DecidableEq

/-- What a leaf certificate is used for. -/
inductive LeafUsage where
  | client
  | mtls
  deriving DecidableEq

/-- An issued certificate. -/
structure IssuedCert where
  der : Bytes
  pem : String
  serialHex : String
  notAfter : String
  fingerprint : String
  deriving DecidableEq

/-- The device CA. `parseAndVerifyCsr` succeeds only on a request whose signature verifies under its
own key, the proof of possession. -/
structure Ca where
  parseAndVerifyCsr : Bytes → Except String CertReq
  issueLeaf : String → Bytes → LeafUsage → Except String IssuedCert

/-- `hex::encode`. -/
def hexEncode (bytes : Bytes) : String :=
  String.ofList (Hex.encode bytes)

/-- The public key of a verified request, in hexadecimal. -/
def Ca.verifyCsrPubkey (ca : Ca) (csr : Bytes) : Except String String := do
  let req ← ca.parseAndVerifyCsr csr
  match req.publicKey with
  | some bytes => return hexEncode bytes
  | none => .error "CSR public key is not octet-aligned"

/-- The `COSE_Key` of an uncompressed P-256 point: a CBOR map with the key type EC2, the curve, and
the two coordinates as byte strings. -/
def sec1ToCose (sec1 : Vector UInt8 65) : Bytes :=
  [0xA4, 0x01, 0x02, 0x20, 0x01, 0x21, 0x58, 0x20] ++ (sec1.toList.drop 1).take 32 ++
    [0x22, 0x58, 0x20] ++ sec1.toList.drop 33

/-- The key that an enrollment for `device-decrypt` records. -/
def recordedKey (ca : Ca) (csr : Bytes) : Except AppError String := do
  let pubkeyHex ← (ca.verifyCsrPubkey csr).mapError fun e => .badRequest s!"CSR rejected: {e}"
  let sec1 := (Hex.decode pubkeyHex.toList).bind fun bytes =>
    if h : bytes.length = 65 then some (⟨bytes.toArray, by simpa using h⟩ : Vector UInt8 65)
    else none
  match sec1 with
  | some sec1 => return hexEncode (sec1ToCose sec1)
  | none => .error (.badRequest "CSR key is not a 65-byte P-256 point")

/-- The response to an enrollment. -/
structure EnrollResponse where
  id : String
  keyId : String
  certificatePem : Option String
  serial : Option String
  notAfter : Option String
  fingerprint : Option String
  deriving DecidableEq

/-- Record the decryption key of a device. -/
def enrollDecrypt (ca : Ca) (id : String) (csr : Bytes) :
    Prog rosterSql AppError EnrollResponse := do
  let pubkey ← Prog.lift (recordedKey ca csr)
  let rows ← Prog.perform (S := rosterSql) (.enrollDevice id pubkey) .internal
  if rows = 0 then .ret (.error (.failed .notFound))
  else return ⟨id, "device-decrypt", none, none, none, none⟩

/-- Issue a certificate for a key slot of a device. -/
def enrollCert (ca : Ca) (id keyId : String) (csr : Bytes) :
    Prog rosterSql AppError EnrollResponse := do
  let usage := if keyId = "tls-identity" then .mtls else .client
  let issued ← Prog.lift ((ca.issueLeaf id csr usage).mapError fun e =>
    .badRequest s!"CSR rejected: {e}")
  let known ← Prog.perform (S := rosterSql) (.selectDevice id) .internal
  if known then
    let row : DeviceCert := ⟨id, keyId, issued.der, some issued.serialHex, some issued.notAfter,
      some issued.fingerprint, 0⟩
    Prog.execute (S := rosterSql) (.upsertCert row) .internal
    return ⟨id, keyId, some issued.pem, some issued.serialHex, some issued.notAfter,
      some issued.fingerprint⟩
  else .ret (.error (.failed .notFound))

/-- `POST /admin/devices/{id}/enroll?key_id=`. -/
def enrollDevice (ca : Ca) (id keyId : String) (csr : Bytes) :
    Prog rosterSql AppError EnrollResponse :=
  if keyId = "device-decrypt" then enrollDecrypt ca id csr else enrollCert ca id keyId csr

/-! ## Sequences of requests -/

/-- A request to Tower 1. -/
inductive Request where
  | register (req : RegisterDevice)
  | enroll (id keyId : String) (csr : Bytes)

/-- The database faults that a request meets. -/
abbrev Faults := List (Option (Fault SqlError))

/-- The roster after a request. -/
def Request.apply (ca : Ca) (x : Roster) (faults : Faults) : Request → Roster
  | .register req => ((registerDevice req).run rosterDb faults x).2.2
  | .enroll id keyId csr => ((enrollDevice ca id keyId csr).run rosterDb faults x).2.2

/-- The roster, and the requests that were sent so far. -/
structure Tower where
  roster : Roster
  sent : List Request

namespace Tower

/-- The roster before the first request. -/
def empty : Tower :=
  ⟨.empty, []⟩

/-- One request under some faults. -/
def next (ca : Ca) (t : Tower) (step : Request × Faults) : Tower :=
  ⟨step.1.apply ca t.roster step.2, t.sent ++ [step.1]⟩

end Tower

/-- The text is the key of a signing request with a valid proof of possession that was sent to
enroll the device for `device-decrypt`. -/
def Proven (ca : Ca) (sent : List Request) (id pubkey : String) : Prop :=
  ∃ csr req sec1, .enroll id "device-decrypt" csr ∈ sent ∧ ca.parseAndVerifyCsr csr = .ok req ∧
    req.publicKey = some sec1.toList ∧ pubkey = hexEncode (sec1ToCose sec1)

/-- Every enrolled device has a proven key. -/
def EnrolledProven (ca : Ca) (t : Tower) : Prop :=
  ∀ d ∈ t.roster.devices.rows, d.status = .enrolled →
    ∃ pubkey, d.pubkey = some pubkey ∧ Proven ca t.sent d.id pubkey

/-- A registration that supplies a key for an enrolled device supplies a proven one. -/
def KeepsProven (ca : Ca) (t : Tower) : Request → Prop
  | .register req =>
    NulFree req.id → (∀ s ∈ req.model, NulFree s) → ∀ pubkey ∈ req.pubkey, NulFree pubkey →
      (∃ d ∈ t.roster.devices.rows, d.id = req.id ∧ d.status = .enrolled) →
        Proven ca t.sent req.id pubkey
  | .enroll _ _ _ => True

/-- A registration that supplies a key supplies a proven one. -/
def SuppliesProven (ca : Ca) (t : Tower) : Request → Prop
  | .register req => ∀ pubkey ∈ req.pubkey, Proven ca t.sent req.id pubkey
  | .enroll _ _ _ => True

/-! ## What the statements do -/

namespace Roster

variable {x : Roster} {id : String}

theorem find_eq_some_iff {d : Device} : x.find id = some d ↔ d ∈ x.devices.rows ∧ d.id = id := by
  have hkey : ∀ r r' : Device, decide (r.id = id) = true → decide (r'.id = id) = true →
      r.Clash r' := by
    intro r r' hr hr'
    exact (of_decide_eq_true hr).trans (of_decide_eq_true hr').symm
  have hsymm : ∀ r r' : Device, r.Clash r' → r'.Clash r := fun _ _ => Eq.symm
  rw [find, Table.find?_eq_some_iff hsymm hkey, decide_eq_true_iff]

@[simp] theorem rows_modifyDevice (f : Device → Device) (hf : ∀ d, (f d).id = d.id) :
    (x.modifyDevice id f hf).devices.rows =
      x.devices.rows.map fun d => if d.id = id then f d else d := rfl

/-- What holds of every row, and of the changed row of the device, holds of every row after the
change. -/
theorem forall_modifyDevice {Q : Device → Prop} {f : Device → Device}
    (hf : ∀ d, (f d).id = d.id) (hx : ∀ d ∈ x.devices.rows, Q d)
    (hset : ∀ d ∈ x.devices.rows, d.id = id → Q (f d)) :
    ∀ d ∈ (x.modifyDevice id f hf).devices.rows, Q d := by
  intro d' hd'
  obtain ⟨d, hd, rfl⟩ := List.mem_map.mp hd'
  split
  · exact hset d hd ‹_›
  · exact hx d hd

theorem forall_upsertDevice {Q : Device → Prop} {model pubkey : Option String}
    (hx : ∀ d ∈ x.devices.rows, Q d)
    (hupdate : NulFree id → (∀ s ∈ model, NulFree s) → (∀ s ∈ pubkey, NulFree s) →
      ∀ d ∈ x.devices.rows, d.id = id → Q (d.updated model pubkey))
    (hnew : NulFree id → Q ⟨id, model, .registered, pubkey⟩) :
    ∀ d ∈ (x.upsertDevice id model pubkey).2.devices.rows, Q d := by
  unfold upsertDevice
  dsimp only
  split
  · rename_i hnul
    cases hfind : x.find id with
    | some d =>
      exact forall_modifyDevice (fun d => d.id_updated _ _) hx (hupdate hnul.1 hnul.2.1 hnul.2.2)
    | none =>
      dsimp only
      split
      · rename_i hfree
        exact Table.forall_mem_insert (h := hfree) hx (hnew hnul.1)
      · exact hx
  · exact hx

/-- An upsert that is executed updates the row of the device. -/
theorem mem_upsertDevice {model pubkey : Option String} {d : Device} (hid : NulFree id)
    (hmodel : ∀ s ∈ model, NulFree s) (hpubkey : ∀ s ∈ pubkey, NulFree s)
    (hd : d ∈ x.devices.rows) (heq : d.id = id) :
    d.updated model pubkey ∈ (x.upsertDevice id model pubkey).2.devices.rows := by
  have hfind : x.find id = some d := find_eq_some_iff.mpr ⟨hd, heq⟩
  unfold upsertDevice
  dsimp only
  rw [if_pos ⟨hid, hmodel, hpubkey⟩, hfind]
  exact List.mem_map.mpr ⟨d, hd, if_pos heq⟩

theorem forall_enrollDevice {Q : Device → Prop} {pubkey : String}
    (hx : ∀ d ∈ x.devices.rows, Q d)
    (hset : ∀ d ∈ x.devices.rows, d.id = id → Q (d.enroll pubkey)) :
    ∀ d ∈ (x.enrollDevice id pubkey).2.devices.rows, Q d := by
  unfold enrollDevice
  split
  · exact forall_modifyDevice (fun d => d.id_enroll _) hx hset
  · exact hx

@[simp] theorem selectDevice_snd : (x.selectDevice id).2 = x := by
  unfold selectDevice
  split <;> rfl

@[simp] theorem devices_upsertCert (cert : DeviceCert) :
    (x.upsertCert cert).2.devices = x.devices := by
  unfold upsertCert
  dsimp only
  repeat' split
  all_goals rfl

@[simp] theorem certs_upsertDevice (model pubkey : Option String) :
    (x.upsertDevice id model pubkey).2.certs = x.certs := by
  unfold upsertDevice
  dsimp only
  repeat' split
  all_goals rfl

@[simp] theorem certs_enrollDevice (pubkey : String) :
    (x.enrollDevice id pubkey).2.certs = x.certs := by
  unfold enrollDevice
  split <;> rfl

/-- What holds of every certificate, and of the one that is written, holds of every certificate
after an upsert. -/
theorem forall_upsertCert {Q : DeviceCert → Prop} {cert : DeviceCert}
    (hx : ∀ c ∈ x.certs.rows, Q c) (hcert : Q { cert with enrolledAt := x.clock }) :
    ∀ c ∈ (x.upsertCert cert).2.certs.rows, Q c := by
  unfold upsertCert
  extract_lets row old rows
  have hrows : ∀ c ∈ rows, Q c := by
    intro c hc
    dsimp only [rows] at hc
    split at hc
    · -- The row of the slot is replaced in its place.
      obtain ⟨c', hc', rfl⟩ := List.mem_map.mp hc
      split
      · exact hcert
      · exact hx c' hc'
    · rcases List.mem_append.mp hc with h | h
      · exact hx c h
      · exact List.mem_singleton.mp h ▸ hcert
  split
  · split
    · split
      · exact hrows
      · exact hx
    · exact hx
  · exact hx

end Roster

/-! ## What a request does -/

/-- The key that an enrollment records is that of a verified request. -/
theorem exists_of_recordedKey_eq_ok {ca : Ca} {csr : Bytes} {pubkey : String}
    (h : recordedKey ca csr = .ok pubkey) :
    ∃ req sec1, ca.parseAndVerifyCsr csr = .ok req ∧
      req.publicKey = some (sec1 : Vector UInt8 65).toList ∧
      pubkey = hexEncode (sec1ToCose sec1) := by
  obtain ⟨hex, hhex, h⟩ := Except.bind_eq_ok_iff.mp h
  obtain ⟨req, hreq, hkey⟩ := Except.bind_eq_ok_iff.mp (Except.mapError_eq_ok_iff.mp hhex)
  cases hpub : req.publicKey with
  | none => simp [hpub] at hkey
  | some bytes =>
    obtain rfl : hexEncode bytes = hex := by simpa [hpub] using hkey
    -- The text is the hexadecimal form of the key, so decoding it yields the key.
    have hdecode : Hex.decode (hexEncode bytes).toList = some bytes := by
      rw [hexEncode, String.toList_ofList, Hex.decode_encode]
    by_cases hlen : bytes.length = 65
    · refine ⟨req, ⟨bytes.toArray, by simpa using hlen⟩, hreq, by simp [hpub], ?_⟩
      simp only [hdecode, hlen, Option.bind_some, dite_true, Except.pure_eq_ok_iff] at h
      exact h.symm
    · simp [hdecode, hlen] at h

theorem nulFree_hexEncode (bytes : Bytes) : NulFree (hexEncode bytes) := by
  rw [NulFree, hexEncode, String.toList_ofList]
  exact Hex.notMem_encode (by decide) bytes

/-- A registration that is executed updates the row of the device. -/
theorem Request.mem_apply_register (ca : Ca) {x : Roster} {r : RegisterDevice} {d : Device}
    (hid : NulFree r.id) (hmodel : ∀ s ∈ r.model, NulFree s) (hpubkey : ∀ s ∈ r.pubkey, NulFree s)
    (hd : d ∈ x.devices.rows) (heq : d.id = r.id) :
    d.updated r.model r.pubkey ∈ ((Request.register r).apply ca x []).devices.rows :=
  Roster.mem_upsertDevice hid hmodel hpubkey hd heq

/-- An enrollment for `device-decrypt` that is executed records the key. -/
theorem Request.mem_apply_enroll {ca : Ca} {x : Roster} {id pubkey : String} {csr : Bytes}
    {d : Device} (hkey : recordedKey ca csr = .ok pubkey) (hid : NulFree id)
    (hpubkey : NulFree pubkey) (hd : d ∈ x.devices.rows) (heq : d.id = id) :
    d.enroll pubkey ∈
      ((Request.enroll id "device-decrypt" csr).apply ca x []).devices.rows := by
  have hexec : rosterDb.exec (.enrollDevice id pubkey) x = _ := if_pos ⟨hid, hpubkey⟩
  rw [Request.apply, enrollDevice, if_pos rfl, enrollDecrypt, hkey,
    Prog.run_bind_of_ok (Prog.run_lift_eq_ok_iff.mpr ⟨rfl, rfl, rfl⟩),
    Prog.run_bind_of_ok (Prog.run_perform_eq_ok_iff.mpr ⟨rfl, rfl, hexec⟩)]
  -- The row is written whether or not the number of rows is zero.
  split <;> exact List.mem_map.mpr ⟨d, hd, if_pos heq⟩

/-- The statements that an enrollment can issue: it records a verified key, or stores a certificate
that the CA issued for the device. -/
def EnrollStmt (ca : Ca) (id keyId : String) (csr : Bytes) : RosterSql → Prop
  | .upsertDevice .. => False
  | .enrollDevice id' pubkey =>
    id' = id ∧ keyId = "device-decrypt" ∧ recordedKey ca csr = .ok pubkey
  | .selectDevice _ => True
  | .upsertCert cert => ∃ usage issued, ca.issueLeaf id csr usage = .ok issued ∧
      cert = ⟨id, keyId, issued.der, some issued.serialHex, some issued.notAfter,
        some issued.fingerprint, 0⟩

theorem issues_enrollDevice (ca : Ca) (id keyId : String) (csr : Bytes) :
    (enrollDevice ca id keyId csr).Issues (EnrollStmt ca id keyId csr) := by
  unfold enrollDevice
  split
  · unfold enrollDecrypt
    cases hkey : recordedKey ca csr with
    | error e => trivial
    | ok pubkey =>
      have hstmt : EnrollStmt ca id keyId csr (.enrollDevice id pubkey) := ⟨rfl, ‹_›, hkey⟩
      refine (Prog.issues_perform hstmt _).bind fun rows => ?_
      dsimp only
      split <;> trivial
  · unfold enrollCert
    dsimp only
    cases hissued : ca.issueLeaf id csr (if keyId = "tls-identity" then .mtls else .client) with
    | error e => trivial
    | ok issued =>
      have hselect : EnrollStmt ca id keyId csr (.selectDevice id) := trivial
      refine (Prog.issues_perform hselect _).bind fun known => ?_
      split
      · have hupsert : EnrollStmt ca id keyId csr (.upsertCert _) := ⟨_, issued, hissued, rfl⟩
        exact (Prog.issues_execute hupsert _).bind fun _ => trivial
      · trivial

/-- What holds of every row holds after a request, if it holds of the rows that the request
writes. -/
theorem Request.forall_apply {ca : Ca} {x : Roster} {faults : Faults} {req : Request}
    {Q : Device → Prop} (hx : ∀ d ∈ x.devices.rows, Q d)
    (hregister : ∀ r, req = .register r → NulFree r.id → (∀ s ∈ r.model, NulFree s) →
      (∀ s ∈ r.pubkey, NulFree s) → ∀ d ∈ x.devices.rows, d.id = r.id →
        Q (d.updated r.model r.pubkey))
    (hnew : ∀ r, req = .register r → NulFree r.id → Q ⟨r.id, r.model, .registered, r.pubkey⟩)
    (henroll : ∀ id csr pubkey, req = .enroll id "device-decrypt" csr →
      recordedKey ca csr = .ok pubkey → ∀ d : Device, Q d → d.id = id → Q (d.enroll pubkey)) :
    ∀ d ∈ (req.apply ca x faults).devices.rows, Q d := by
  cases req with
  | register r =>
    exact Service.forall_answer (S := rosterSql) (s := .upsertDevice r.id r.model r.pubkey)
      (P := fun x : Roster => ∀ d ∈ x.devices.rows, Q d) hx
      (Roster.forall_upsertDevice hx (hregister r rfl) (hnew r rfl)) (fun _ => hx) _
  | enroll id keyId csr =>
    refine Prog.run_invariant (S := rosterSql) (I := fun x : Roster => ∀ d ∈ x.devices.rows, Q d)
      ?_ (issues_enrollDevice ca id keyId csr) faults hx
    rintro (_ | ⟨id, pubkey⟩ | id | cert) hs x hx
    · exact hs.elim
    · obtain ⟨rfl, rfl, hkey⟩ := hs
      exact ⟨Roster.forall_enrollDevice hx fun d hd => henroll id csr pubkey rfl hkey d (hx d hd),
        fun _ => hx⟩
    · exact ⟨by simpa [rosterDb] using hx, fun _ => hx⟩
    · exact ⟨by simpa [rosterDb] using hx, fun _ => hx⟩

/-- The ids in the roster are such as a statement can ask for. -/
theorem nulFree_foldl_next (ca : Ca) (steps : List (Request × Faults)) :
    ∀ d ∈ (steps.foldl (Tower.next ca) .empty).roster.devices.rows, NulFree d.id := by
  refine List.foldlRecOn steps (Tower.next ca)
    (motive := fun t => ∀ d ∈ t.roster.devices.rows, NulFree d.id) ?_ fun t ht step _ => ?_
  · intro d hd
    simp [Tower.empty, Roster.empty] at hd
  · apply Request.forall_apply ht
    · rintro r - - - - d hd -
      exact ht d hd
    · exact fun r _ hid => hid
    · exact fun id csr pubkey _ _ d hd _ => hd

/-- What holds of every certificate holds after a request, if it holds of those that the CA issues
for the device of the request. -/
theorem Request.forall_certs_apply {ca : Ca} {x : Roster} {faults : Faults} {req : Request}
    {Q : DeviceCert → Prop} (hx : ∀ c ∈ x.certs.rows, Q c)
    (hissue : ∀ id keyId csr usage issued time, req = .enroll id keyId csr →
      ca.issueLeaf id csr usage = .ok issued →
        Q ⟨id, keyId, issued.der, some issued.serialHex, some issued.notAfter,
          some issued.fingerprint, time⟩) :
    ∀ c ∈ (req.apply ca x faults).certs.rows, Q c := by
  cases req with
  | register r =>
    exact Service.forall_answer (S := rosterSql) (s := .upsertDevice r.id r.model r.pubkey)
      (P := fun x : Roster => ∀ c ∈ x.certs.rows, Q c) hx (by simpa [rosterDb] using hx)
      (fun _ => hx) _
  | enroll id keyId csr =>
    refine Prog.run_invariant (S := rosterSql) (I := fun x : Roster => ∀ c ∈ x.certs.rows, Q c)
      ?_ (issues_enrollDevice ca id keyId csr) faults hx
    rintro (_ | ⟨id', pubkey⟩ | id' | cert) hs x hx
    · exact hs.elim
    · exact ⟨by simpa [rosterDb] using hx, fun _ => hx⟩
    · exact ⟨by simpa [rosterDb] using hx, fun _ => hx⟩
    · obtain ⟨usage, issued, hissued, rfl⟩ := hs
      exact ⟨Roster.forall_upsertCert hx (hissue id keyId csr usage issued _ rfl hissued),
        fun _ => hx⟩

/-! ## Enrolled means proven -/

section

variable {ca : Ca} {sent : List Request} {id pubkey : String}

theorem Proven.append (h : Proven ca sent id pubkey) (req : Request) :
    Proven ca (sent ++ [req]) id pubkey := by
  obtain ⟨csr, r, sec1, hmem, h⟩ := h
  exact ⟨csr, r, sec1, List.mem_append_left _ hmem, h⟩

/-- A registration proves nothing. -/
theorem proven_append_register_iff {r : RegisterDevice} :
    Proven ca (sent ++ [.register r]) id pubkey ↔ Proven ca sent id pubkey := by
  simp [Proven]

theorem proven_of_recordedKey {csr : Bytes} (h : recordedKey ca csr = .ok pubkey) :
    Proven ca (sent ++ [.enroll id "device-decrypt" csr]) id pubkey := by
  obtain ⟨req, sec1, hreq, hpub, hkey⟩ := exists_of_recordedKey_eq_ok h
  exact ⟨csr, req, sec1, by simp, hreq, hpub, hkey⟩

end

section

variable {ca : Ca} {t : Tower}

/-- The step lemma: the condition keeps every enrolled key proven. -/
theorem EnrolledProven.next (h : EnrolledProven ca t) {req : Request}
    (hreq : KeepsProven ca t req) (faults : Faults) :
    EnrolledProven ca (t.next ca (req, faults)) := by
  apply Request.forall_apply
  · intro d hd hs
    obtain ⟨pubkey, hkey, hproven⟩ := h d hd hs
    exact ⟨pubkey, hkey, hproven.append req⟩
  · rintro r rfl hid hmodel hnul d hd heq hs
    cases hpub : r.pubkey with
    | none =>
      obtain ⟨pubkey, hkey, hproven⟩ := h d hd hs
      exact ⟨pubkey, by simpa [Device.updated, hpub] using hkey, hproven.append _⟩
    | some pubkey =>
      refine ⟨pubkey, rfl, ?_⟩
      have hproven := hreq hid hmodel pubkey hpub (hnul pubkey hpub) ⟨d, hd, heq, hs⟩
      rw [← heq] at hproven
      exact hproven.append _
  · rintro r rfl - hs
    cases hs
  · rintro id csr pubkey rfl hkey d - rfl -
    exact ⟨pubkey, rfl, proven_of_recordedKey hkey⟩

/-- The condition is needed: a registration that is executed without it leaves an enrolled device
with a key that is not proven. -/
theorem enrolledProven_next_iff (h : EnrolledProven ca t) (req : Request) :
    EnrolledProven ca (t.next ca (req, [])) ↔ KeepsProven ca t req := by
  refine ⟨fun hnext => ?_, fun hreq => h.next hreq []⟩
  cases req with
  | enroll id keyId csr => trivial
  | register r =>
    rintro hid hmodel pubkey hpub hnul ⟨d, hd, heq, hs⟩
    have hmem : d.updated r.model r.pubkey ∈
        (t.next ca (.register r, [])).roster.devices.rows := by
      refine Request.mem_apply_register ca hid hmodel ?_ hd heq
      rw [Option.mem_def] at hpub
      simpa [hpub] using hnul
    obtain ⟨pubkey', hkey, hproven⟩ := hnext _ hmem hs
    obtain rfl : pubkey = pubkey' := by
      rw [Option.mem_def] at hpub
      simpa [Device.updated, hpub] using hkey
    rw [← heq]
    exact proven_append_register_iff.mp hproven

/-- Every recorded key is proven, also that of a device that is not enrolled. -/
def KeysProven (ca : Ca) (t : Tower) : Prop :=
  ∀ d ∈ t.roster.devices.rows, ∀ pubkey ∈ d.pubkey, Proven ca t.sent d.id pubkey

theorem KeysProven.next (h : KeysProven ca t) {req : Request} (hreq : SuppliesProven ca t req)
    (faults : Faults) : KeysProven ca (t.next ca (req, faults)) := by
  apply Request.forall_apply
  · exact fun d hd pubkey hkey => (h d hd pubkey hkey).append req
  · rintro r rfl - - - d hd heq pubkey hkey
    cases hpub : r.pubkey with
    | none =>
      refine (h d hd pubkey ?_).append _
      simpa [Device.updated, hpub] using hkey
    | some supplied =>
      obtain rfl : supplied = pubkey := by simpa [Device.updated, hpub] using hkey
      have hproven := hreq supplied hpub
      rw [← heq] at hproven
      exact hproven.append _
  · rintro r rfl - pubkey hkey
    exact (hreq pubkey hkey).append _
  · rintro id csr pubkey rfl hkey d - rfl supplied hsupplied
    obtain rfl : pubkey = supplied := by simpa [Device.enroll] using hsupplied
    exact proven_of_recordedKey hkey

end

/-- In every run in which no registration gives an enrolled device a key that was not proven, every
enrolled device has a proven key, and the next request keeps it so iff it does not do that either.
If no registration supplies a key that was not proven, then no keystore is wrapped to such a key. -/
theorem enrolled_proven (ca : Ca) (steps : List (Request × Faults))
    (h : Trace.AllMeet (Tower.next ca) (fun t step => KeepsProven ca t step.1) .empty steps) :
    EnrolledProven ca (steps.foldl (Tower.next ca) .empty) ∧
    (∀ req, EnrolledProven ca ((steps.foldl (Tower.next ca) .empty).next ca (req, [])) ↔
      KeepsProven ca (steps.foldl (Tower.next ca) .empty) req) ∧
    (Trace.AllMeet (Tower.next ca) (fun t step => SuppliesProven ca t step.1) .empty steps →
      ∀ id pubkey, (steps.foldl (Tower.next ca) .empty).roster.pubkeyOf id = some pubkey →
        Proven ca (steps.foldl (Tower.next ca) .empty).sent id pubkey) := by
  have hrun : EnrolledProven ca (steps.foldl (Tower.next ca) .empty) := by
    refine h.invariant (P := EnrolledProven ca) ?_ ?_
    · intro d hd
      simp [Tower.empty, Roster.empty] at hd
    · intro t step _ ht hstep
      exact ht.next hstep step.2
  refine ⟨hrun, enrolledProven_next_iff hrun, fun hsupply id pubkey hkey => ?_⟩
  have hkeys : KeysProven ca (steps.foldl (Tower.next ca) .empty) := by
    refine hsupply.invariant (P := KeysProven ca) ?_ ?_
    · intro d hd
      simp [Tower.empty, Roster.empty] at hd
    · intro t step _ ht hstep
      exact ht.next hstep step.2
  obtain ⟨d, hfind, hpub⟩ := Option.bind_eq_some_iff.mp hkey
  obtain ⟨hd, rfl⟩ := Roster.find_eq_some_iff.mp hfind
  exact hkeys d hd pubkey hpub

/-- A device CA that verifies one signing request. -/
def sampleCa : Ca where
  parseAndVerifyCsr csr :=
    if csr = [1] then .ok ⟨some (4 :: List.replicate 64 7)⟩
    else .error "CSR self-signature (proof-of-possession) failed"
  issueLeaf _ _ _ := .error "CSR self-signature (proof-of-possession) failed"

/-- The key of that request. -/
def sampleKey : Vector UInt8 65 :=
  ⟨(4 :: List.replicate 64 7).toArray, by decide⟩

theorem proven_sampleKey {sent : List Request} {id : String}
    (h : .enroll id "device-decrypt" [1] ∈ sent) :
    Proven sampleCa sent id (hexEncode (sec1ToCose sampleKey)) :=
  ⟨[1], _, sampleKey, h, rfl, rfl, rfl⟩

theorem recordedKey_sampleCa :
    recordedKey sampleCa [1] = .ok (hexEncode (sec1ToCose sampleKey)) := by
  have hverify : sampleCa.verifyCsrPubkey [1] = .ok (hexEncode (4 :: List.replicate 64 7)) := rfl
  have hdecode : Hex.decode (hexEncode (4 :: List.replicate 64 7)).toList =
      some (4 :: List.replicate 64 7) := by
    rw [hexEncode, String.toList_ofList, Hex.decode_encode]
  rw [recordedKey, hverify, Except.mapError_ok, Except.ok_bind, hdecode]
  rfl

/-- A device is registered and enrolled, and registered again with a key. -/
def sampleSteps (pubkey : String) : List (Request × Faults) :=
  [(.register ⟨"rig-1", none, none⟩, []), (.enroll "rig-1" "device-decrypt" [1], []),
    (.register ⟨"rig-1", some "gen2", some pubkey⟩, [])]

/-- The device stays enrolled, with the key of the second registration. -/
theorem mem_devices_sampleSteps {pubkey : String} (h : NulFree pubkey) :
    ⟨"rig-1", some "gen2", .enrolled, some pubkey⟩ ∈
      ((sampleSteps pubkey).foldl (Tower.next sampleCa) .empty).roster.devices.rows := by
  let x : Roster := (Request.register ⟨"rig-1", none, none⟩).apply sampleCa .empty []
  have hid : NulFree "rig-1" := by decide
  have hregistered : ⟨"rig-1", none, .registered, none⟩ ∈ x.devices.rows := by decide
  have henrolled := Request.mem_apply_enroll recordedKey_sampleCa hid (nulFree_hexEncode _)
    hregistered rfl
  have hupdated := Request.mem_apply_register sampleCa
    (r := ⟨"rig-1", some "gen2", some pubkey⟩) hid (by simp [NulFree]) (by simpa using h) henrolled
    rfl
  simpa only [sampleSteps, List.foldl_cons, List.foldl_nil, Tower.next, Tower.empty, Device.updated,
    Device.enroll, Option.some_or] using hupdated

/-- The second registration repeats the proven key. -/
theorem enrolled_proven_registered_again :
    let t := (sampleSteps (hexEncode (sec1ToCose sampleKey))).foldl (Tower.next sampleCa) .empty
    EnrolledProven sampleCa t ∧ ⟨"rig-1", some "gen2", .enrolled,
      some (hexEncode (sec1ToCose sampleKey))⟩ ∈ t.roster.devices.rows := by
  refine ⟨(enrolled_proven sampleCa (sampleSteps _) ?_).1,
    mem_devices_sampleSteps (nulFree_hexEncode _)⟩
  refine ⟨?_, trivial, ?_, trivial⟩
  · simp [KeepsProven]
  · rintro - - pubkey hpub - -
    obtain rfl := Option.mem_some_iff.mp hpub
    exact proven_sampleKey (by simp [Tower.next, Tower.empty])

/-- The second registration replaces the proven key, and the device stays enrolled. -/
theorem enrolled_not_proven :
    ¬ ∀ (ca : Ca) (steps : List (Request × Faults)),
      EnrolledProven ca (steps.foldl (Tower.next ca) .empty) := by
  intro h
  have hmem : ⟨"rig-1", some "gen2", .enrolled, some "00"⟩ ∈
      ((sampleSteps "00").foldl (Tower.next sampleCa) .empty).roster.devices.rows :=
    mem_devices_sampleSteps (by decide)
  obtain ⟨pubkey, hpub, csr, req, sec1, -, -, -, hkey⟩ := h sampleCa _ _ hmem rfl
  obtain rfl := Option.mem_some_iff.mp hpub
  -- The encoding of a key begins with the byte of a map, and the registered text does not.
  have hlist := congrArg String.toList hkey
  simp [hexEncode, sec1ToCose, Hex.digit] at hlist

end IdentityTower
