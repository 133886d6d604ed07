import SumoProvision.Foundations.Ownership
import SumoProvision.SoftwareTower.Content

/-!
# Integrity of the content store

Publishing writes two stores in sequence, without a transaction: first the blob, then its index
entry. `content_intact` says that in every interleaving of publish calls, with every operation free
to fail or to be cut off, each index entry has its blob, which decrypts and decompresses to the
plaintext of the entry; that each blob is stored under its hash; and that neither ever changes.

A call owns its temp file until the file is renamed, and knows from then on that its blob is stored
(`Hold`). The proof follows `publish_stream` operation by operation (`safe_publishStream`).
-/

namespace SoftwareTower

open Wire

/-- Publish calls on one store. -/
abbrev Publishing (ι : Type) :=
  Sys storeOps Store ι AppError ArtifactRef

/-- The calls before they start, on a new store. -/
def startPublishing {ι : Type} (codec : Codec) (sha : Sha256) (calls : ι → Upload) :
    Publishing ι where
  shared := .empty
  proc i := publishStream codec sha (calls i)

/-- Blobs are stored under their hashes, and each entry has a blob that decodes to its plaintext. -/
structure Store.Intact (codec : Codec) (sha : Sha256) (x : Store) : Prop where
  blobs : ∀ outer b, x.files (.blob outer) = some b → digest sha b = outer
  entries : ∀ inner e, x.index inner = some e → e.inner = inner ∧ ∃ b z plain,
    x.files (.blob e.outer) = some b ∧ codec.decrypt e.cek e.nonce b = some z ∧
      codec.decompress z = some plain ∧ digest sha plain = e.inner ∧ plain.length = e.size

/-- Blobs and entries of the first store are in the second one, unchanged. -/
structure Store.Kept (x x' : Store) : Prop where
  blobs : ∀ outer b, x.files (.blob outer) = some b → x'.files (.blob outer) = some b
  entries : ∀ inner e, x.index inner = some e → x'.index inner = some e

/-- No two calls make different ciphertexts with one hash. -/
def CiphersCollisionFree {ι : Type} (codec : Codec) (sha : Sha256) (calls : ι → Upload) : Prop :=
  ∀ i j cek nonce a cek' nonce' a', (calls i).Makes codec cek nonce a →
    (calls j).Makes codec cek' nonce' a' → digest sha a.cipher = digest sha a'.cipher →
      a.cipher = a'.cipher

section Discipline

variable {ι : Type} (codec : Codec) (sha : Sha256) (calls : ι → Upload)

/-- The entry and the ciphertext of an artifact that one of the calls makes. -/
def IsArtifact (e : ArtifactEntry) (cipher : Bytes) : Prop :=
  ∃ i cek nonce a, (calls i).Makes codec cek nonce a ∧ e = entryOf sha cek nonce a ∧
    cipher = a.cipher

/-- Every blob and every entry belongs to an artifact of the calls, and every entry has its blob. -/
structure Consistent (x : Store) : Prop where
  blobs : ∀ outer b, x.files (.blob outer) = some b →
    ∃ e, IsArtifact codec sha calls e b ∧ e.outer = outer
  entries : ∀ inner e, x.index inner = some e → e.inner = inner ∧
    ∃ b, IsArtifact codec sha calls e b ∧ x.files (.blob e.outer) = some b

/-- What a call holds: its temp file, with the content if that is known, and a blob it knows to be
stored. -/
structure Hold where
  temp : Option ℕ := none
  content : Option Bytes := none
  blob : Option (ContentHash × Bytes) := none

/-- The state agrees with what a call holds. -/
def Hold.Agrees (g : Hold) (x : Store) : Prop :=
  (∀ seq, g.temp = some seq → seq < x.tempSeq ∧
    ∀ b, g.content = some b → x.files (.temp seq) = some b) ∧
  ∀ outer b, g.blob = some (outer, b) → x.files (.blob outer) = some b

/-- No two calls own one temp file. -/
def Hold.Apart (g h : Hold) : Prop :=
  ∀ seq, g.temp = some seq → h.temp ≠ some seq

/-- How publish calls share the store. -/
def publishing : Discipline Store Hold where
  inv := Consistent codec sha calls
  own := Hold.Agrees
  apart := Hold.Apart
  apart_symm hgh seq hh hg := hgh seq hg hh
  kept := Store.Kept
  kept_refl _ := ⟨fun _ _ h => h, fun _ _ h => h⟩
  kept_trans h h' := ⟨fun o b hb => h'.blobs o b (h.blobs o b hb),
    fun i e he => h'.entries i e (h.entries i e he)⟩

variable {codec sha calls} {g g' : Hold} {x x' : Store}

/-- A consistent store is intact, since artifacts decode. -/
theorem Consistent.intact (h : Consistent codec sha calls x) : x.Intact codec sha where
  blobs outer b hb := by
    obtain ⟨e, ⟨i, cek, nonce, a, -, rfl, rfl⟩, rfl⟩ := h.blobs outer b hb
    rfl
  entries inner e he := by
    obtain ⟨hinner, b, ⟨i, cek, nonce, a, hmakes, rfl, rfl⟩, hb⟩ := h.entries inner e he
    obtain ⟨hsize, z, hdecrypt, hdecompress⟩ := hmakes.decodes
    exact ⟨hinner, a.cipher, z, a.plain, hb, hdecrypt, hdecompress, rfl, hsize.symm⟩

/-- A step may change the temp file of its call, and take a new one. -/
theorem step_of_kept (hinv : Consistent codec sha calls x') (hown : g'.Agrees x')
    (hkept : x.Kept x') (hseq : x.tempSeq ≤ x'.tempSeq)
    (hothers : ∀ t < x.tempSeq, g.temp ≠ some t → x'.files (.temp t) = x.files (.temp t))
    (hnew : ∀ t, g'.temp = some t → g.temp = some t ∨ x.tempSeq ≤ t) :
    (publishing codec sha calls).Step g g' x x' where
  inv := hinv
  own := hown
  kept := hkept
  frame := by
    -- Another call has its temp file, which is an older one than any that is taken now.
    rintro h ⟨htemp, hblob⟩ hapart
    refine ⟨⟨fun t ht => ?_, fun o b hb => hkept.blobs o b (hblob o b hb)⟩, fun t ht hh => ?_⟩
    · obtain ⟨hlt, hcontent⟩ := htemp t ht
      refine ⟨hlt.trans_le hseq, fun b hb => ?_⟩
      rw [hothers t hlt fun hg => hapart t hg ht]
      exact hcontent b hb
    · rcases hnew t ht with hg | hle
      · exact hapart t hg hh
      · exact absurd (htemp t hh).1 (by omega)

/-- A step that leaves blobs and index alone. -/
theorem step_temp (hinv : Consistent codec sha calls x) (hown : g'.Agrees x')
    (hblobs : ∀ o, x'.files (.blob o) = x.files (.blob o)) (hindex : x'.index = x.index)
    (hseq : x.tempSeq ≤ x'.tempSeq)
    (hothers : ∀ t < x.tempSeq, g.temp ≠ some t → x'.files (.temp t) = x.files (.temp t))
    (hnew : ∀ t, g'.temp = some t → g.temp = some t ∨ x.tempSeq ≤ t) :
    (publishing codec sha calls).Step g g' x x' := by
  refine step_of_kept ⟨?_, ?_⟩ hown ⟨?_, ?_⟩ hseq hothers hnew
  · simpa only [hblobs] using hinv.blobs
  · simpa only [hblobs, hindex] using hinv.entries
  · simp [hblobs]
  · simp [hindex]

/-! ## The operations -/

/-- Every operation is allowed. -/
def anyOp : storeOps.Stmt → Option (Fault storeOps.Err) → Store → Prop := fun _ _ _ => True

theorem allMeet_anyOp {ι : Type} [DecidableEq ι] (schedule : List (Sys.Turn storeOps ι))
    (c : Publishing ι) :
    Trace.AllMeet (Sys.next contentStore) (Sys.Allowed anyOp) c schedule := by
  induction schedule generalizing c with
  | nil => trivial
  | cons turn schedule ih =>
    refine ⟨?_, ih _⟩
    unfold Sys.Allowed
    split <;> trivial

/-- An operation that changes nothing. -/
theorem safe_quiet {op : StoreOp} (hexec : ∀ x, (contentStore.exec op x).2 = x)
    (htear : ∀ n x, contentStore.tear n op x = x) (g : Hold) :
    (publishing codec sha calls).Safe contentStore anyOp (fun g' _ => g' = g) g (perform op) := by
  refine Discipline.safe_perform (S := storeOps) fun fault x _ hinv hown => ⟨g, ?_, rfl⟩
  -- Executed, failed or cut off: nothing changes in any of them.
  have hx : (contentStore.answer fault op x).2 = x :=
    Service.forall_answer (P := (· = x)) rfl (hexec x) (fun n => htear n x) fault
  rw [hx]
  exact .refl hinv hown

/-- The owner of a temp file sets its content. -/
theorem step_setTemp {seq : ℕ} {content : Option Bytes} (hinv : Consistent codec sha calls x)
    (hown : g.Agrees x) (htemp : g.temp = some seq) {known : Option Bytes}
    (hknown : ∀ b, known = some b → content = some b) :
    (publishing codec sha calls).Step g { g with content := known } x
      (x.setFile (.temp seq) content) := by
  refine step_temp hinv ⟨fun t ht => ?_, fun o b hb => ?_⟩ (by simp) rfl le_rfl ?_
    fun t ht => .inl ht
  · obtain rfl : seq = t := Option.some.inj (htemp.symm.trans ht)
    exact ⟨(hown.1 seq ht).1, fun b hb => by simpa using hknown b hb⟩
  · simpa using hown.2 o b hb
  · intro t _ hne
    have : t ≠ seq := fun heq => hne (heq ▸ htemp)
    simp [this]

/-- The owner of a temp file forgets its content. -/
theorem step_forget (hinv : Consistent codec sha calls x) (hown : g.Agrees x) :
    (publishing codec sha calls).Step g { g with content := none } x x :=
  step_temp hinv ⟨fun t ht => ⟨(hown.1 t ht).1, by simp⟩, hown.2⟩ (fun _ => rfl) rfl le_rfl
    (fun _ _ _ => rfl) fun _ => .inl

/-- A new sink owns an empty temp file. -/
theorem safe_beginSink :
    (publishing codec sha calls).Safe contentStore anyOp
      (fun g r => ∀ seq, r = .ok seq → g = { temp := some seq, content := some [] }) {}
      beginSink := by
  refine (safe_quiet (fun _ => rfl) (fun _ _ => rfl) {}).bind_of_kept (fun _ => ?_) fun _ => nofun
  refine Discipline.safe_perform (S := storeOps) fun fault x _ hinv hown => ?_
  have hcreated : (publishing codec sha calls).Step {}
      { temp := some x.tempSeq, content := some [] } x
      (x.takeSeq.setFile (.temp x.tempSeq) (some [])) := by
    refine step_temp hinv ⟨by simp, by simp⟩ (by simp) rfl (by simp) (fun t ht _ => ?_) (by simp)
    simp [ht.ne]
  rcases contentStore.answer_cases fault .createTemp x with h | ⟨why, x', h, hx'⟩
  · rw [h]
    refine ⟨_, hcreated, fun seq hseq => ?_⟩
    cases hseq
    rfl
  · rw [h]
    refine ⟨{}, ?_, nofun⟩
    rcases hx' with rfl | rfl | ⟨n, rfl⟩
    · exact .refl hinv hown
    · -- The file was created and the reply lost, so nobody owns it.
      refine step_temp hinv ⟨by simp, by simp⟩ (by simp [contentStore]) rfl (by simp [contentStore])
        (fun t ht _ => ?_) (by simp)
      simp [contentStore, ht.ne]
    · exact step_temp hinv ⟨by simp, by simp⟩ (fun _ => rfl) rfl (by simp [contentStore])
        (fun _ _ _ => rfl) (by simp)

/-- A sink whose content is known, before its blob is stored. -/
def sink (seq : ℕ) (content : Bytes) : Hold :=
  { temp := some seq, content := some content }

/-- Writing extends the content; a write that fails leaves it unknown. -/
theorem safe_writeAll (seq : ℕ) (content : Bytes) (out : Option Bytes) :
    (publishing codec sha calls).Safe contentStore anyOp
      (fun g r => g.temp = some seq ∧ (r = .ok () → g = sink seq (content ++ out.getD [])))
      (sink seq content) (writeAll seq out) := by
  cases out with
  | none => exact ⟨rfl, by simp⟩
  | some bytes =>
    refine Discipline.safe_perform (S := storeOps) fun fault x _ hinv hown => ?_
    have hfile : x.files (.temp seq) = some content := (hown.1 seq rfl).2 content rfl
    -- The file grows by what was written of the output, be it all or a part.
    have happend : ∀ more known, (∀ b, known = some b → content ++ more = b) →
        (publishing codec sha calls).Step (sink seq content)
          { sink seq content with content := known } x (x.append (.temp seq) more) := by
      intro more known hknown
      rw [Store.append, hfile, Option.map_some]
      exact step_setTemp hinv hown rfl fun b hb => congrArg some (hknown b hb)
    rcases contentStore.answer_cases fault (.write seq bytes) x with h | ⟨why, x', h, hx'⟩
    · rw [h]
      exact ⟨sink seq (content ++ bytes), happend bytes _ (by simp), rfl, fun _ => rfl⟩
    · rw [h]
      refine ⟨{ sink seq content with content := none }, ?_, rfl, nofun⟩
      rcases hx' with rfl | rfl | ⟨n, rfl⟩
      · exact step_forget hinv hown
      · exact happend bytes none nofun
      · -- A write that was cut off.
        exact happend (bytes.take n) none nofun

/-- The owner of a temp file removes it. -/
theorem step_remove {seq : ℕ} (fault : Option (Fault InternalError))
    (hinv : Consistent codec sha calls x) (hown : g.Agrees x) (htemp : g.temp = some seq) :
    (publishing codec sha calls).Step g { g with content := none } x
      (contentStore.answer fault (.remove seq) x).2 := by
  -- The file may be gone already, which the removal reports and nobody reads.
  have hremoved : (publishing codec sha calls).Step g { g with content := none } x
      (x.remove seq).2 := by
    unfold Store.remove
    split
    · exact step_setTemp hinv hown htemp (by simp)
    · exact step_forget hinv hown
  have hkept := step_forget hinv hown
  exact Service.forall_answer (S := storeOps) hkept hremoved (fun _ => hkept) fault

/-- Dropping the sink. -/
theorem safe_dropSink {seq : ℕ} (htemp : g.temp = some seq) :
    (publishing codec sha calls).Safe contentStore anyOp (fun _ _ => True) g (dropSink seq) :=
  fun fault _ _ hinv hown => ⟨_, step_remove fault hinv hown htemp, trivial⟩

/-! ## Publishing -/

/-- The loop over the body keeps the temp file equal to the ciphertext so far. -/
theorem safe_streamBody {cek : Vector UInt8 cekLen} {nonce : Vector UInt8 nonceLen} (seq : ℕ)
    {s : Pipeline codec} (hs : s.Fed cek nonce) (body : List (Except String Bytes)) :
    (publishing codec sha calls).Safe contentStore anyOp
      (fun g r => g.temp = some seq ∧ ∀ s', r = .ok s' →
        g = sink seq s'.cipher ∧ s'.Fed cek nonce ∧ s.absorbAll body = .ok s')
      (sink seq s.cipher) (streamBody seq s body) := by
  induction body generalizing s with
  | nil =>
    refine (safe_quiet (fun _ => rfl) (fun _ _ => rfl) _).bind_of_kept (fun _ => ?_)
      fun _ => ⟨rfl, nofun⟩
    refine ⟨rfl, fun s' hs' => ?_⟩
    cases hs'
    exact ⟨rfl, hs, rfl⟩
  | cons chunk body ih =>
    refine (safe_quiet (fun _ => rfl) (fun _ _ => rfl) _).bind_of_kept (fun _ => ?_)
      fun _ => ⟨rfl, nofun⟩
    cases habsorb : s.absorb chunk with
    | error e =>
      -- An error of the body or of an encoder stops the call with its temp file in place.
      exact ⟨rfl, nofun⟩
    | ok r =>
      obtain ⟨out, t⟩ := r
      obtain ⟨ht, hcipher⟩ := hs.absorb habsorb
      refine (safe_writeAll seq s.cipher out).bind ?_ fun g e hg => ⟨hg.1, nofun⟩
      rintro g ⟨⟩ ⟨-, hg⟩
      -- The file has grown by the output of this chunk, as the ciphertext has.
      rw [hg rfl, ← hcipher]
      refine (ih ht).mono fun g r hr => ⟨hr.1, fun s' hs' => ?_⟩
      obtain ⟨hg', hfed, hall⟩ := hr.2 s' hs'
      exact ⟨hg', hfed, by rw [Pipeline.absorbAll, habsorb]; exact hall⟩

/-- The sink ends up with the whole artifact. -/
theorem safe_streamAll {cek : Vector UInt8 cekLen} {nonce : Vector UInt8 nonceLen} (seq : ℕ)
    {s : Pipeline codec} (hs : s.Fed cek nonce) (hempty : s.cipher = [])
    (body : List (Except String Bytes)) :
    (publishing codec sha calls).Safe contentStore anyOp
      (fun g r => g.temp = some seq ∧ ∀ a, r = .ok a →
        g = sink seq a.cipher ∧ s.sealAll body = .ok a)
      (sink seq []) (streamAll seq s body) := by
  rw [← hempty]
  refine (safe_streamBody seq hs body).bind ?_ fun g e hg => ⟨hg.1, nofun⟩
  rintro g t ⟨-, hg⟩
  obtain ⟨rfl, ht, hbody⟩ := hg t rfl
  cases hdrain : t.drain with
  | error e => exact ⟨rfl, nofun⟩
  | ok r =>
    obtain ⟨out, u⟩ := r
    -- As in the loop, the file and the ciphertext grow by the same output.
    have hcipher : u.cipher = t.cipher ++ out.getD [] := ht.cipher_drain hdrain
    refine (safe_writeAll seq t.cipher out).bind ?_ fun g e hg => ⟨hg.1, nofun⟩
    rintro g ⟨⟩ ⟨-, hg⟩
    rw [hg rfl, ← hcipher]
    cases htag : u.tag with
    | error e => exact ⟨rfl, nofun⟩
    | ok tag =>
      refine (safe_writeAll seq u.cipher (some tag)).bind ?_ fun g e hg => ⟨hg.1, nofun⟩
      rintro g ⟨⟩ ⟨-, hg⟩
      rw [hg rfl]
      refine ⟨rfl, fun a ha => ?_⟩
      cases ha
      exact ⟨rfl, by simp [Pipeline.sealAll, hbody, hdrain, htag, pure, Except.pure]⟩

/-! ### The commit -/

section Commit

variable {i : ι} {cek : Vector UInt8 cekLen} {nonce : Vector UInt8 nonceLen} {a : Sealed}

/-- What is stored under the address of an artifact is its ciphertext. -/
theorem Consistent.blob_eq (hinv : Consistent codec sha calls x)
    (hsha : CiphersCollisionFree codec sha calls) (ha : (calls i).Makes codec cek nonce a)
    {b : Bytes} (hb : x.files (.blob (digest sha a.cipher)) = some b) : b = a.cipher := by
  obtain ⟨e, ⟨j, cek', nonce', a', ha', rfl, rfl⟩, houter⟩ := hinv.blobs _ _ hb
  exact hsha j i _ _ _ _ _ _ ha' ha houter

/-- A call learns that a blob is stored. -/
theorem step_know (hinv : Consistent codec sha calls x) (hown : g.Agrees x) {outer : ContentHash}
    {b : Bytes} (hb : x.files (.blob outer) = some b) :
    (publishing codec sha calls).Step g { g with blob := some (outer, b) } x x := by
  refine step_temp hinv ⟨hown.1, fun o b' h => ?_⟩ (fun _ => rfl) rfl le_rfl (fun _ _ _ => rfl)
    fun _ => .inl
  cases h
  exact hb

/-- The rename of a whole artifact stores its blob. A blob that is already there is replaced by the
same bytes. -/
theorem step_rename (hinv : Consistent codec sha calls x)
    (hsha : CiphersCollisionFree codec sha calls) (ha : (calls i).Makes codec cek nonce a) {seq : ℕ}
    (hown : (sink seq a.cipher).Agrees x) :
    (x.rename seq (digest sha a.cipher)).1 = .ok () ∧
      (publishing codec sha calls).Step (sink seq a.cipher)
        { temp := some seq, blob := some (digest sha a.cipher, a.cipher) } x
        (x.rename seq (digest sha a.cipher)).2 := by
  have hfile : x.files (.temp seq) = some a.cipher := (hown.1 seq rfl).2 _ rfl
  have hrename : x.rename seq (digest sha a.cipher) =
      (.ok (), (x.setFile (.blob (digest sha a.cipher)) (some a.cipher)).setFile (.temp seq)
        none) := by
    rw [Store.rename, hfile]
  -- Without collisions the rename can only replace a blob by the same bytes.
  have hkept : x.Kept ((x.setFile (.blob (digest sha a.cipher)) (some a.cipher)).setFile
      (.temp seq) none) := by
    refine ⟨fun o b hb => ?_, fun _ _ he => he⟩
    by_cases ho : o = digest sha a.cipher
    · subst ho
      simp [hinv.blob_eq hsha ha hb]
    · simpa [ho] using hb
  rw [hrename]
  refine ⟨rfl, step_of_kept ⟨fun o b hb => ?_, fun inner e he => ?_⟩ ⟨fun t ht => ?_, ?_⟩ hkept
    le_rfl (fun t _ hne => ?_) fun _ => .inl⟩
  · by_cases ho : o = digest sha a.cipher
    · subst ho
      obtain rfl : a.cipher = b := by simpa using hb
      exact ⟨_, ⟨i, cek, nonce, a, ha, rfl, rfl⟩, rfl⟩
    · exact hinv.blobs o b (by simpa [ho] using hb)
  · obtain ⟨hinner, b, hb, hfile⟩ := hinv.entries inner e he
    exact ⟨hinner, b, hb, hkept.blobs _ _ hfile⟩
  · cases ht
    exact ⟨(hown.1 seq rfl).1, nofun⟩
  · intro o b h
    cases h
    simp
  · have : t ≠ seq := fun heq => hne (heq ▸ rfl)
    simp [this]

/-- The existence test makes an existing blob known; otherwise the sink is as before. -/
theorem safe_tryExists (hsha : CiphersCollisionFree codec sha calls)
    (ha : (calls i).Makes codec cek nonce a) (seq : ℕ) :
    (publishing codec sha calls).Safe contentStore anyOp
      (fun g r => g.temp = some seq ∧ (r = .ok false → g = sink seq a.cipher) ∧
        (r = .ok true → g.blob = some (digest sha a.cipher, a.cipher)))
      (sink seq a.cipher) (commitSink.tryExists (digest sha a.cipher)) := by
  intro fault x _ hinv hown
  rcases contentStore.answer_cases fault (.tryExists (digest sha a.cipher)) x with
    h | ⟨why, x', h, hx'⟩
  · rw [h]
    dsimp only [contentStore]
    cases hfile : x.files (.blob (digest sha a.cipher)) with
    | none => exact ⟨_, .refl hinv hown, rfl, fun _ => rfl, nofun⟩
    | some b =>
      rw [hinv.blob_eq hsha ha hfile] at hfile
      exact ⟨_, step_know hinv hown hfile, rfl, nofun, fun _ => rfl⟩
  · obtain rfl : x' = x := by
      rcases hx' with rfl | rfl | ⟨n, rfl⟩ <;> rfl
    rw [h]
    refine ⟨_, .refl hinv hown, ?_⟩
    cases why with
    -- `unwrap_or(false)`: the call goes on as if the blob were absent.
    | failed e => exact ⟨rfl, fun _ => rfl, nofun⟩
    | dropped => exact ⟨rfl, nofun, nofun⟩

/-- Committing the whole artifact makes its blob known. -/
theorem safe_commitSink (hsha : CiphersCollisionFree codec sha calls)
    (ha : (calls i).Makes codec cek nonce a) (seq : ℕ) :
    (publishing codec sha calls).Safe contentStore anyOp
      (fun g r => g.temp = some seq ∧ (r = .ok () → g.blob = some (digest sha a.cipher, a.cipher)))
      (sink seq a.cipher) (commitSink seq (digest sha a.cipher)) := by
  refine (safe_quiet (fun _ => rfl) (fun _ _ => rfl) _).bind_of_kept (fun _ => ?_)
    fun _ => ⟨rfl, nofun⟩
  refine (safe_quiet (fun _ => rfl) (fun _ _ => rfl) _).bind_of_kept (fun _ => ?_)
    fun _ => ⟨rfl, nofun⟩
  refine (safe_tryExists hsha ha seq).bind ?_ fun g e hg => ⟨hg.1, nofun⟩
  rintro g present ⟨htemp, habsent, hpresent⟩
  cases present with
  | true =>
    intro fault x _ hinv hown
    -- The blob is there, and an error of the removal does not stop the call.
    refine ⟨_, step_remove fault hinv hown htemp, ?_⟩
    generalize (contentStore.answer fault (.remove seq) x).1 = r
    match r with
    | .ok () => exact ⟨htemp, fun _ => hpresent rfl⟩
    | .error (.failed e) => exact ⟨htemp, fun _ => hpresent rfl⟩
    | .error .dropped => exact ⟨htemp, nofun⟩
  | false =>
    rw [habsent rfl]
    refine Discipline.safe_perform (S := storeOps) fun fault x _ hinv hown => ?_
    obtain ⟨hok, hrenamed⟩ := step_rename hinv hsha ha hown
    rcases contentStore.answer_cases fault (.rename seq (digest sha a.cipher)) x with
      h | ⟨why, x', h, hx'⟩
    · rw [h]
      exact ⟨_, hrenamed, rfl, fun _ => rfl⟩
    · rw [h]
      rcases hx' with rfl | rfl | ⟨n, rfl⟩
      · exact ⟨_, .refl hinv hown, rfl, nofun⟩
      · -- The rename was made and its reply lost: the blob stays without an entry.
        exact ⟨_, hrenamed, rfl, nofun⟩
      · exact ⟨_, .refl hinv hown, rfl, nofun⟩

end Commit

/-- The entry of a stored artifact keeps the store consistent. -/
theorem step_put (hinv : Consistent codec sha calls x) (hown : g.Agrees x) {i : ι}
    {cek : Vector UInt8 cekLen} {nonce : Vector UInt8 nonceLen} {a : Sealed}
    (ha : (calls i).Makes codec cek nonce a)
    (hblob : g.blob = some (digest sha a.cipher, a.cipher)) :
    (publishing codec sha calls).Step g g x (x.put (entryOf sha cek nonce a)) := by
  unfold Store.put
  split
  · -- `DO NOTHING`: the entry that is there stays.
    exact .refl hinv hown
  · rename_i hnone
    refine step_of_kept ⟨hinv.blobs, fun inner e he => ?_⟩ hown
      ⟨fun _ _ h => h, fun inner e he => ?_⟩ le_rfl (fun _ _ _ => rfl) fun _ => .inl
    · by_cases hinner : inner = (entryOf sha cek nonce a).inner
      · subst hinner
        obtain rfl : entryOf sha cek nonce a = e := by simpa using he
        exact ⟨rfl, a.cipher, ⟨i, cek, nonce, a, ha, rfl, rfl⟩, hown.2 _ _ hblob⟩
      · exact hinv.entries inner e (by simpa [hinner] using he)
    · have hinner : inner ≠ (entryOf sha cek nonce a).inner := by
        rintro rfl
        rw [hnone] at he
        cases he
      simpa [hinner] using he

theorem safe_indexPut {i : ι} {cek : Vector UInt8 cekLen} {nonce : Vector UInt8 nonceLen}
    {a : Sealed} (ha : (calls i).Makes codec cek nonce a)
    (hblob : g.blob = some (digest sha a.cipher, a.cipher)) :
    (publishing codec sha calls).Safe contentStore anyOp (fun _ _ => True) g
      (perform (.indexPut (entryOf sha cek nonce a))) := by
  refine Discipline.safe_perform (S := storeOps) fun fault x _ hinv hown => ⟨g, ?_, trivial⟩
  have hsame := Discipline.Step.refl (D := publishing codec sha calls) hinv hown
  exact Service.forall_answer hsame (step_put hinv hown ha hblob) (fun _ => hsame) fault

/-- Up to the commit: the call still owns its temp file, and the blob of a new entry is known. -/
theorem safe_publishBlob (hsha : CiphersCollisionFree codec sha calls) {i : ι}
    {cek : Vector UInt8 cekLen} {nonce : Vector UInt8 nonceLen}
    (hrandom : (calls i).random = .ok (cek, nonce)) {s : Pipeline codec}
    (hs : Pipeline.start codec cek nonce = .ok s) (seq : ℕ) :
    (publishing codec sha calls).Safe contentStore anyOp
      (fun g r => g.temp = some seq ∧ ∀ e, r = .ok (.inr e) →
        ∃ a, (calls i).Makes codec cek nonce a ∧ e = entryOf sha cek nonce a ∧
          g.blob = some (digest sha a.cipher, a.cipher))
      (sink seq []) (publishBlob sha cek nonce seq s (calls i).body) := by
  -- A pipeline starts with no ciphertext, as its temp file does.
  have hempty : s.cipher = [] := (Pipeline.empty_of_start hs).2
  refine (safe_streamAll seq (Pipeline.fed_start hs) hempty _).bind ?_ fun g e hg => ⟨hg.1, nofun⟩
  rintro g a ⟨-, hg⟩
  obtain ⟨rfl, hseal⟩ := hg a rfl
  have ha : (calls i).Makes codec cek nonce a := ⟨hrandom, s, hs, hseal⟩
  refine (safe_quiet (fun _ => rfl) (fun _ _ => rfl) _).bind_of_kept (fun found => ?_)
    fun _ => ⟨rfl, nofun⟩
  cases found with
  | some existing =>
    -- The plaintext was published before, so the blob of this call is not needed.
    exact ⟨rfl, nofun⟩
  | none =>
    refine (safe_commitSink hsha ha seq).bind ?_ fun g e hg => ⟨hg.1, nofun⟩
    rintro g ⟨⟩ ⟨htemp, hblob⟩
    refine ⟨htemp, fun e he => ?_⟩
    cases he
    exact ⟨a, ha, rfl, hblob rfl⟩

/-- A publish call keeps to the discipline. -/
theorem safe_publishStream (hsha : CiphersCollisionFree codec sha calls) (i : ι) :
    (publishing codec sha calls).Safe contentStore anyOp (fun _ _ => True) {}
      (publishStream codec sha (calls i)) := by
  unfold publishStream
  cases hrandom : (calls i).random with
  | error e => trivial
  | ok r =>
    obtain ⟨cek, nonce⟩ := r
    change Discipline.Safe _ _ _ _ _ (Prog.lift (Pipeline.start codec cek nonce) >>= _)
    cases hs : Pipeline.start codec cek nonce with
    | error e => trivial
    | ok s =>
      refine safe_beginSink.bind ?_ fun _ _ _ => trivial
      intro g seq hg
      rw [hg seq rfl]
      have hblob : (publishing codec sha calls).Safe contentStore anyOp
          (fun g r => ∀ o, r = .ok o → g.temp = some seq ∧ ∀ e, o = .inr e →
            ∃ a, (calls i).Makes codec cek nonce a ∧ e = entryOf sha cek nonce a ∧
              g.blob = some (digest sha a.cipher, a.cipher))
          (sink seq [])
          (Prog.onStop (dropSink seq) (publishBlob sha cek nonce seq s (calls i).body)) :=
        (safe_publishBlob hsha hrandom hs seq).onStop
          (fun g o hg _ ho => Except.ok.inj ho ▸ ⟨hg.1, fun e he => hg.2 e (congrArg _ he)⟩)
          -- Whatever stopped the call, it still owns its temp file and drops it.
          fun g e hg => (safe_dropSink hg.1).mono fun _ _ _ => nofun
      refine hblob.bind ?_ fun _ _ _ => trivial
      intro g o hg
      obtain ⟨htemp, hnew⟩ := hg o rfl
      cases o with
      | inl existing => exact (safe_dropSink htemp).bind (fun _ _ _ => trivial) fun _ _ _ => trivial
      | inr e =>
        obtain ⟨a, ha, rfl, hknown⟩ := hnew e rfl
        exact (safe_indexPut ha hknown).bind (fun _ _ _ => trivial) fun _ _ _ => trivial

end Discipline

/-! ## Every interleaving -/

/-- The calls keep to the discipline from the start, when nobody owns anything. -/
theorem owned_startPublishing {ι : Type} {codec : Codec} {sha : Sha256} {calls : ι → Upload}
    (hsha : CiphersCollisionFree codec sha calls) :
    Sys.Owned (publishing codec sha calls) contentStore anyOp (fun _ _ => True)
      (startPublishing codec sha calls) := by
  refine ⟨⟨nofun, nofun⟩, fun _ => {}, fun i => ⟨⟨nofun, nofun⟩, ?_⟩, fun _ _ _ => nofun⟩
  exact safe_publishStream hsha i

/-- In every interleaving of publish calls, whatever fails or is cut off, the store is intact, and
what it holds stays as it is. -/
theorem content_intact {ι : Type} [DecidableEq ι] (codec : Codec) (sha : Sha256)
    (calls : ι → Upload) (hsha : CiphersCollisionFree codec sha calls)
    (schedule later : List (Sys.Turn storeOps ι)) :
    let d := schedule.foldl (Sys.next contentStore) (startPublishing codec sha calls)
    d.shared.Intact codec sha ∧ d.shared.Kept (later.foldl (Sys.next contentStore) d).shared := by
  intro d
  have hd := ((owned_startPublishing hsha).run (allMeet_anyOp schedule _)).1
  exact ⟨hd.1.intact, (hd.run (allMeet_anyOp later d)).2⟩

/-- Calls that make the sample ciphertexts have no collision. -/
theorem ciphersCollisionFree_of_makes {ι : Type} {codec : Codec} {calls : ι → Upload} {f : ι → Bool}
    (hmakes : ∀ i, ∃ cek nonce, (calls i).Makes codec cek nonce
      ⟨[97, 98, 99], sampleCipher (f i), 3⟩) : CiphersCollisionFree codec sampleSha calls := by
  intro i j cek nonce a cek' nonce' a' ha ha' heq
  obtain ⟨_, _, hi⟩ := hmakes i
  obtain ⟨_, _, hj⟩ := hmakes j
  have hdigests : ∀ i j, digest sampleSha (sampleCipher i) = digest sampleSha (sampleCipher j) →
      sampleCipher i = sampleCipher j := by decide +kernel
  rw [ha.unique hi, ha'.unique hj] at heq ⊢
  exact hdigests _ _ heq

/-- The two sample uploads have ciphertexts with different hashes. -/
theorem ciphersCollisionFree_sample : CiphersCollisionFree sampleCodec sampleSha sampleUploads := by
  refine ciphersCollisionFree_of_makes (f := id) fun i => ?_
  cases i with
  | false => exact ⟨_, _, rfl, _, rfl, by rfl⟩
  | true => exact ⟨_, _, rfl, _, rfl, by rfl⟩

/-- An upload that is dropped in the middle of a write leaves nothing, and another one with the same
plaintext is stored. -/
theorem content_intact_after_drop :
    let start := startPublishing sampleCodec sampleSha sampleUploads
    let schedule := List.replicate 4 (true, none) ++
      [(true, some (.torn 5 .dropped)), (true, none)] ++ List.replicate 12 (false, none)
    let d := schedule.foldl (Sys.next contentStore) start
    (d.shared.index sampleInner).map (·.ref) = some ⟨sampleInner, sampleOuter false, 3⟩ ∧
      d.shared.files (.temp 0) = none ∧ d.shared.Intact sampleCodec sampleSha := by
  intro start schedule d
  exact ⟨by decide +kernel, by decide +kernel, (content_intact sampleCodec sampleSha sampleUploads
    ciphersCollisionFree_sample schedule []).1⟩

end SoftwareTower
