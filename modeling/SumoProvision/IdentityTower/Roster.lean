import SumoProvision.IdentityTower.Recorded
import SumoProvision.Wire.Suit

/-!
# The roster as the API shows it

`list_devices` and `get_device` show the rows of the roster, each with the ECU id that belongs to
its key: the thumbprint that the device computes of its own public key, and that a token for it
names.
The roster stores the key as a COSE key, so the id goes through the point of this key.

`ecu_id_of_enrolled` says which devices are shown, and that the ECU id of an enrolled one is the
thumbprint of a key whose possession was proven.
-/

namespace IdentityTower

open Wire SoftwareTower

/-! ## Reading the roster -/

/-- The statements that only read. -/
inductive RosterReadSql where
  | selectDevices
  | selectDevice (id : String)
  | selectPubkey (id : String)
  | selectCert (id keyId : String)

/-- What they return. -/
abbrev RosterReadSql.Reply : RosterReadSql → Type
  | .selectDevices => List Device
  | .selectDevice _ => Option Device
  | .selectPubkey _ => Option (Option String)
  | .selectCert .. => Option Bytes

/-- The reading statements with their replies and errors. -/
abbrev rosterReadSql : Signature :=
  ⟨RosterReadSql, RosterReadSql.Reply, SqlError⟩

/-- The database server for them, comparing texts by `collate`. -/
def rosterReadDb (collate : String → String → Bool) : Service rosterReadSql Roster where
  exec
    | .selectDevices, x => (.ok (x.devices.rows.mergeSort fun d d' => collate d.id d'.id), x)
    | .selectDevice id, x => (if NulFree id then .ok (x.find id) else .error .invalidInput, x)
    | .selectPubkey id, x =>
      (if NulFree id then .ok ((x.find id).map (·.pubkey)) else .error .invalidInput, x)
    | .selectCert id keyId, x =>
      (if NulFree id then .ok (x.certOf id keyId) else .error .invalidInput, x)

/-- A device as the API shows it, `wire::Device`. -/
structure RosterDevice where
  id : String
  model : Option String
  status : Status
  pubkey : Option String
  ecuId : Option String
  deriving DecidableEq

/-- The coordinates of a point. -/
def coordinates (sec1 : Vector UInt8 65) : Vector UInt8 32 × Vector UInt8 32 :=
  (.ofFn fun i => sec1[1 + i.val], .ofFn fun i => sec1[33 + i.val])

/-- A point from its coordinates, behind the tag of uncompressed points. -/
def uncompressed (x y : Vector UInt8 32) : Vector UInt8 65 :=
  #v[(0x04 : UInt8)] ++ x ++ y

/-- What the key crates read from keys: the coordinates of a COSE key, and the encoding of the
public key with a point, if there is one. -/
structure Ec2 (suit : Suit) where
  ec2PublicXy : suit.Key → Except String (Vector UInt8 32 × Vector UInt8 32)
  /-- `PublicKey::from_sec1_bytes` and `to_public_key_der`. -/
  publicKeyDer : Vector UInt8 65 → Option Bytes

section Ec2

variable {suit : Suit} (ec2 : Ec2 suit) (sha : Sha256)

/-- The uncompressed point of a COSE key. -/
def Ec2.coseToSec1 (coseKeyCbor : Bytes) : Except String (Vector UInt8 65) := do
  let key ← (suit.fromCoseKeyBytes coseKeyCbor).mapError fun e => s!"invalid COSE_Key CBOR: {e}"
  let (x, y) ← (ec2.ec2PublicXy key).mapError fun e => s!"not an EC2 P-256 public key: {e}"
  return uncompressed x y

/-- The thumbprint of a device key, as the device computes it: the SHA-256 of its public key. -/
def Ec2.thumbprint (sec1 : Vector UInt8 65) : Option String :=
  (ec2.publicKeyDer sec1).map fun spki => (sha ⟨spki.toArray⟩).toBare

/-- The ECU id of a device, from its key in the roster. -/
def ecuIdFromCoseHex (pubkeyCoseHex : String) : Option String := do
  let cose ← Hex.decode pubkeyCoseHex.toList
  let sec1 ← (ec2.coseToSec1 cose).toOption
  let spki ← ec2.publicKeyDer sec1
  return (sha ⟨spki.toArray⟩).toBare

/-- The device of a row. -/
def deviceFromRow (r : Device) : RosterDevice :=
  ⟨r.id, r.model, r.status, r.pubkey, r.pubkey.bind (ecuIdFromCoseHex ec2 sha)⟩

/-- `GET /devices`. -/
def listDevices : Prog rosterReadSql AppError (List RosterDevice) := do
  let rows ← Prog.perform (S := rosterReadSql) .selectDevices .internal
  return rows.map (deviceFromRow ec2 sha)

/-- `GET /devices/{id}`. -/
def getDevice (id : String) : Prog rosterReadSql AppError RosterDevice := do
  match ← Prog.perform (S := rosterReadSql) (.selectDevice id) .internal with
  | some r => return deviceFromRow ec2 sha r
  | none => .ret (.error (.failed .notFound))

end Ec2

/-- What is relied on: the key of a verified signing request is a point of the curve, an encoded
point starts with the tag of uncompressed points, and a point is read back from its COSE key. -/
structure Ec2.Documented {suit : Suit} (ec2 : Ec2 suit) (ca : Ca) : Prop where
  point_of_verified : ∀ csr req (sec1 : Vector UInt8 65), ca.parseAndVerifyCsr csr = .ok req →
    req.publicKey = some sec1.toList → ∃ spki, ec2.publicKeyDer sec1 = some spki
  tag_of_point : ∀ sec1 spki, ec2.publicKeyDer sec1 = some spki → sec1[0] = 0x04
  xy_of_point : ∀ sec1 spki, ec2.publicKeyDer sec1 = some spki →
    ∃ key, suit.fromCoseKeyBytes (sec1ToCose sec1) = .ok key ∧
      ec2.ec2PublicXy key = .ok (coordinates sec1)

section Ids

variable {suit : Suit} {ec2 : Ec2 suit} {ca : Ca}

theorem uncompressed_coordinates {sec1 : Vector UInt8 65} (h : sec1[0] = 0x04) :
    uncompressed (coordinates sec1).1 (coordinates sec1).2 = sec1 := by
  apply Vector.ext
  intro i hi
  rw [uncompressed, Vector.getElem_append]
  split
  · rw [Vector.getElem_append]
    split
    · obtain rfl : i = 0 := by omega
      simp [h]
    · simp only [coordinates, Vector.getElem_ofFn]
      congr 1
      omega
  · simp only [coordinates, Vector.getElem_ofFn]
    congr 1
    omega

/-- The point of a verified request is read back from the COSE key that is recorded. -/
theorem Ec2.coseToSec1_sec1ToCose (hdoc : ec2.Documented ca) {sec1 : Vector UInt8 65}
    {spki : Bytes} (h : ec2.publicKeyDer sec1 = some spki) :
    ec2.coseToSec1 (sec1ToCose sec1) = .ok sec1 := by
  obtain ⟨key, hkey, hxy⟩ := hdoc.xy_of_point sec1 spki h
  rw [coseToSec1, hkey, Except.mapError_ok, Except.ok_bind, hxy, Except.mapError_ok, Except.ok_bind]
  exact congrArg Except.ok (uncompressed_coordinates (hdoc.tag_of_point sec1 spki h))

/-- The ECU id of a recorded key is the thumbprint of the point. -/
theorem ecuIdFromCoseHex_hexEncode (hdoc : ec2.Documented ca) (sha : Sha256)
    {sec1 : Vector UInt8 65} {spki : Bytes} (h : ec2.publicKeyDer sec1 = some spki) :
    ecuIdFromCoseHex ec2 sha (hexEncode (sec1ToCose sec1)) = some (sha ⟨spki.toArray⟩).toBare := by
  rw [ecuIdFromCoseHex, hexEncode, String.toList_ofList, Hex.decode_encode]
  simp [Ec2.coseToSec1_sec1ToCose hdoc h, h, Except.toOption]

variable {collate : String → String → Bool} {sha : Sha256} {x : Roster} {faults : Faults}

theorem run_listDevices_of_ok {shown : List RosterDevice}
    (h : ((listDevices ec2 sha).run (rosterReadDb collate) faults x).1 = .ok shown) :
    shown = (x.devices.rows.mergeSort fun d d' => collate d.id d'.id).map
      (deviceFromRow ec2 sha) := by
  rcases hrun : (listDevices ec2 sha).run (rosterReadDb collate) faults x with ⟨e | _, rest, y⟩
  · rw [hrun] at h
    cases h
  · rw [hrun] at h
    cases h
    obtain ⟨rows, _, _, hrows, hret⟩ := Prog.run_bind_eq_ok_iff.mp hrun
    obtain ⟨-, -, hexec⟩ := Prog.run_perform_eq_ok_iff.mp hrows
    cases hexec
    cases hret
    rfl

/-- A device that is looked up is the one of the row. -/
theorem run_getDevice_of_ok {id : String} {d : RosterDevice}
    (h : ((getDevice ec2 sha id).run (rosterReadDb collate) faults x).1 = .ok d) :
    ∃ r, x.find id = some r ∧ d = deviceFromRow ec2 sha r := by
  rcases hrun : (getDevice ec2 sha id).run (rosterReadDb collate) faults x with ⟨e | _, rest, y⟩
  · rw [hrun] at h
    cases h
  · rw [hrun] at h
    cases h
    obtain ⟨row, _, _, hrow, hret⟩ := Prog.run_bind_eq_ok_iff.mp hrun
    obtain ⟨-, -, hexec⟩ := Prog.run_perform_eq_ok_iff.mp hrow
    have hfind : row = x.find id := by
      dsimp only [rosterReadDb] at hexec
      split at hexec
      · cases hexec
        rfl
      · cases hexec
    cases row with
    | none => cases hret
    | some r =>
      cases hret
      exact ⟨r, hfind.symm, rfl⟩

/-- A lookup that meets no fault finds the row of the device, if a statement can ask for its id. -/
theorem run_getDevice_nil {id : String} {r : Device} (hid : NulFree id)
    (hfind : x.find id = some r) :
    ((getDevice ec2 sha id).run (rosterReadDb collate) [] x).1 = .ok (deviceFromRow ec2 sha r) := by
  have hexec : (rosterReadDb collate).exec (.selectDevice id) x = (.ok (some r), x) := by
    rw [← hfind]
    exact congrArg (Prod.mk · x) (if_pos hid)
  rw [getDevice, Prog.run_bind_of_ok (Prog.run_perform_eq_ok_iff.mpr ⟨rfl, rfl, hexec⟩)]
  rfl

end Ids

section Shown

variable {suit : Suit} {ec2 : Ec2 suit} {ca : Ca}

/-- The run lemma for the enrolled devices. -/
theorem enrolledProven_foldl_next {steps : List (Request × Faults)}
    (h : Trace.AllMeet (Tower.next ca) (fun t step => KeepsProven ca t step.1) .empty steps) :
    EnrolledProven ca (steps.foldl (Tower.next ca) .empty) := by
  refine h.invariant (P := EnrolledProven ca) ?_ fun t step _ ht hstep => ht.next hstep step.2
  intro d hd
  simp [Tower.empty, Roster.empty] at hd

/-- After any sequence of requests in which no registration gives an enrolled device a key that was
not proven, a listing has every device once and exactly as its own lookup answers; and the ECU id of
an enrolled device is the thumbprint of a point that a verified signing request for the device
carried. A lookup under faults answers nothing else. If no reply was lost, the devices are those
that a request has registered, each with the key that was recorded for it last. -/
theorem ecu_id_of_enrolled (hdoc : ec2.Documented ca) (sha : Sha256)
    (collate : String → String → Bool) (steps : List (Request × Faults))
    (hsteps : Trace.AllMeet (Tower.next ca) (fun t step => KeepsProven ca t step.1) .empty steps)
    (faults : Faults) (shown : List RosterDevice)
    (hlist : ((listDevices ec2 sha).run (rosterReadDb collate) faults
      (steps.foldl (Tower.next ca) .empty).roster).1 = .ok shown) :
    let t := steps.foldl (Tower.next ca) .empty
    (shown.map (·.id)).Nodup ∧
    (∀ id d, ((getDevice ec2 sha id).run (rosterReadDb collate) [] t.roster).1 = .ok d ↔
      d ∈ shown ∧ d.id = id) ∧
    (∀ id faults d, ((getDevice ec2 sha id).run (rosterReadDb collate) faults t.roster).1 = .ok d →
      d ∈ shown ∧ d.id = id) ∧
    (∀ d ∈ shown, d.status = .enrolled → ∃ csr req sec1,
      .enroll d.id "device-decrypt" csr ∈ t.sent ∧ ca.parseAndVerifyCsr csr = .ok req ∧
      req.publicKey = some sec1.toList ∧ d.pubkey = some (hexEncode (sec1ToCose sec1)) ∧
      d.ecuId ≠ none ∧ d.ecuId = ec2.thumbprint sha sec1) ∧
    ((∀ step ∈ steps, Answered step) → ∀ id,
      (id ∈ shown.map (·.id) ↔
        ¬ Trace.AllMeet (Tower.next ca) (fun t step => ¬ Registers id t step) .empty steps) ∧
      ∀ d ∈ shown, d.id = id → d.pubkey = Tower.lastRecorded ca id steps) := by
  intro t
  obtain rfl := run_listDevices_of_ok hlist
  have hmem : ∀ d, d ∈ (t.roster.devices.rows.mergeSort fun d d' => collate d.id d'.id).map
      (deviceFromRow ec2 sha) ↔ ∃ r ∈ t.roster.devices.rows, deviceFromRow ec2 sha r = d := by
    simp
  have hlookup : ∀ id faults d,
      ((getDevice ec2 sha id).run (rosterReadDb collate) faults t.roster).1 = .ok d →
        d ∈ (t.roster.devices.rows.mergeSort fun d d' => collate d.id d'.id).map
          (deviceFromRow ec2 sha) ∧ d.id = id := by
    intro id faults d hget
    obtain ⟨r, hfind, rfl⟩ := run_getDevice_of_ok hget
    obtain ⟨hr, rfl⟩ := Roster.find_eq_some_iff.mp hfind
    exact ⟨(hmem _).mpr ⟨r, hr, rfl⟩, rfl⟩
  refine ⟨?_, fun id d => ⟨hlookup id [] d, ?_⟩, hlookup, ?_, ?_⟩
  · have hrows : t.roster.devices.rows.Pairwise fun d d' => d.id ≠ d'.id :=
      t.roster.devices.unique
    rw [List.map_map]
    exact List.pairwise_map.mpr
      (hrows.perm (List.mergeSort_perm _ _).symm fun h => h.symm)
  · rintro ⟨hd, rfl⟩
    obtain ⟨r, hr, rfl⟩ := (hmem d).mp hd
    -- The id of a row came in by a statement, so a statement can ask for it.
    exact run_getDevice_nil (nulFree_foldl_next ca steps r hr)
      (Roster.find_eq_some_iff.mpr ⟨hr, rfl⟩)
  · intro d hd henrolled
    obtain ⟨r, hr, rfl⟩ := (hmem d).mp hd
    obtain ⟨pubkey, hpub, csr, req, sec1, hsent, hreq, hkey, rfl⟩ :=
      enrolledProven_foldl_next hsteps r hr henrolled
    obtain ⟨spki, hspki⟩ := hdoc.point_of_verified csr req sec1 hreq hkey
    have hid := ecuIdFromCoseHex_hexEncode hdoc sha hspki
    have hecu : (deviceFromRow ec2 sha r).ecuId = some (sha ⟨spki.toArray⟩).toBare := by
      simp [deviceFromRow, hpub, hid]
    refine ⟨csr, req, sec1, hsent, hreq, hkey, hpub, by simp [hecu], ?_⟩
    simp [hecu, Ec2.thumbprint, hspki]
  · intro hanswered id
    refine ⟨?_, ?_⟩
    · rw [← isSome_find_foldl_next_iff hanswered, Roster.find, List.find?_isSome]
      simp [deviceFromRow]
    · rintro d hd rfl
      obtain ⟨r, hr, rfl⟩ := (hmem d).mp hd
      have hfind : t.roster.find r.id = some r := Roster.find_eq_some_iff.mpr ⟨hr, rfl⟩
      have hlast : t.roster.pubkeyOf r.id = Tower.lastRecorded ca r.id steps :=
        pubkeyOf_foldl_next hanswered r.id
      rwa [Roster.pubkeyOf, hfind] at hlast

end Shown

/-- Keys that have one point, the one of the sample. -/
def sampleEc2 (suit : Suit) : Ec2 suit where
  ec2PublicXy _ := .ok (coordinates sampleKey)
  publicKeyDer sec1 := if sec1 = sampleKey then some (0x30 :: sec1.toList) else none

theorem documented_sampleEc2 : (sampleEc2 Suit.framed).Documented sampleCa where
  point_of_verified csr req sec1 hreq hkey := by
    simp only [sampleCa] at hreq
    split at hreq
    · cases hreq
      have hsec1 : sec1 = sampleKey := Vector.toList_inj.mp (Option.some.inj hkey).symm
      exact ⟨_, if_pos hsec1⟩
    · cases hreq
  tag_of_point sec1 spki h := by
    obtain ⟨rfl, -⟩ := Option.ite_none_right_eq_some.mp h
    rfl
  xy_of_point sec1 spki h := by
    obtain ⟨rfl, -⟩ := Option.ite_none_right_eq_some.mp h
    exact ⟨(), rfl, rfl⟩

/-- The device of the sample is enrolled, and is listed under the thumbprint of its key, as it is
looked up. -/
theorem ecu_id_of_enrolled_rig :
    let x := ((sampleSteps (hexEncode (sec1ToCose sampleKey))).foldl (Tower.next sampleCa)
      .empty).roster
    ∃ shown, ((listDevices (sampleEc2 Suit.framed) (.ofDigests [])).run (rosterReadDb (· ≤ ·)) []
      x).1 = .ok shown ∧
      ∃ d ∈ shown, ((getDevice (sampleEc2 Suit.framed) (.ofDigests []) "rig-1").run
          (rosterReadDb (· ≤ ·)) [] x).1 = .ok d ∧
        d.ecuId = (sampleEc2 Suit.framed).thumbprint (.ofDigests []) sampleKey := by
  have hsteps : Trace.AllMeet (Tower.next sampleCa) (fun t step => KeepsProven sampleCa t step.1)
      .empty (sampleSteps (hexEncode (sec1ToCose sampleKey))) := by
    refine ⟨?_, trivial, ?_, trivial⟩
    · simp [KeepsProven]
    · rintro - - pubkey hpub - -
      obtain rfl := Option.mem_some_iff.mp hpub
      exact proven_sampleKey (by simp [Tower.next, Tower.empty])
  have hrow := mem_devices_sampleSteps (nulFree_hexEncode (sec1ToCose sampleKey))
  have hlisted := (List.mergeSort_perm _ (fun d d' : Device => decide (d.id ≤ d'.id))).mem_iff.mpr
    hrow
  have hmem := List.mem_map_of_mem (f := deviceFromRow (sampleEc2 Suit.framed) (.ofDigests []))
    hlisted
  obtain ⟨-, hlookup, -, henrolled, -⟩ :=
    ecu_id_of_enrolled documented_sampleEc2 (.ofDigests []) (· ≤ ·) _ hsteps [] _ rfl
  obtain ⟨csr, req, sec1, -, hreq, hkey, -, -, hecu⟩ := henrolled _ hmem rfl
  refine ⟨_, rfl, _, hmem, (hlookup _ _).mpr ⟨hmem, rfl⟩, hecu.trans ?_⟩
  obtain ⟨spki, hspki⟩ := documented_sampleEc2.point_of_verified csr req sec1 hreq hkey
  rw [(Option.ite_none_right_eq_some.mp hspki).1]

end IdentityTower
