import SumoProvision.SoftwareTower.ContentIntegrity

/-!
# Publishing an artifact and reading it back

A publish call threads two hashers, a compressor and an encryptor through the chunks of its body,
and encrypts into one buffer that it reuses. Small chunks may leave the compressor without output,
and then nothing is encrypted.

`Backend` is the encryption with that buffer, and `Backend.toCodec` the codec that `publish_stream`
sees through it: the buffer is cleared and resized before each use, so nothing of an earlier chunk
gets into a later one. `publish_roundtrip` follows a call on a store that other calls have left:
however the body is cut into chunks, a first successful call returns the hash and the length of the
whole body, and what it has stored decrypts and decompresses to the body.
-/

namespace SoftwareTower

open Wire

/-! ## The ciphertext buffer -/

namespace Buffer

/-- `Vec::clear`. -/
def clear (_ : Bytes) : Bytes :=
  []

/-- `Vec::resize` with zeros. -/
def resize (out : Bytes) (n : ℕ) : Bytes :=
  out.take n ++ List.replicate (n - out.length) 0

@[simp] theorem length_resize (out : Bytes) (n : ℕ) : (resize out n).length = n := by
  rw [resize, List.length_append, List.length_take, List.length_replicate]
  omega

end Buffer

/-- The streaming encryption of `sumo-crypto`, which writes into a buffer of its caller. -/
structure Backend (codec : Codec) where
  /-- `StreamingAeadEncryptor::update`: the buffer after the encryption of a plaintext. -/
  update : codec.Aead → Bytes → Bytes → Except String (Bytes × codec.Aead)
  /-- A buffer of the size of the plaintext holds the ciphertext alone. -/
  update_eq : ∀ enc plaintext out, out.length = plaintext.length →
    update enc plaintext out = codec.update enc plaintext

namespace Backend

variable {codec : Codec} (backend : Backend codec)

/-- `StreamEncryptor::update`: encrypt one chunk into the reused buffer. -/
def streamUpdate (enc : codec.Aead) (plaintext out : Bytes) : Except String (Bytes × codec.Aead) :=
  backend.update enc plaintext (Buffer.resize (Buffer.clear out) plaintext.length)

/-- What the buffer held before does not matter. -/
theorem streamUpdate_eq (enc : codec.Aead) (plaintext out : Bytes) :
    backend.streamUpdate enc plaintext out = codec.update enc plaintext :=
  backend.update_eq enc plaintext _ (Buffer.length_resize _ _)

/-- The encryptor of a call together with its buffer `ct`: encrypt one chunk. -/
def updateReusing (s : codec.Aead × Bytes) (plaintext : Bytes) :
    Except String (Bytes × codec.Aead × Bytes) := do
  let (ct, enc) ← backend.streamUpdate s.1 plaintext s.2
  return (ct, enc, ct)

/-- The outputs through the reused buffer are those of the encryptor. -/
theorem feed_of_feed_updateReusing {chunks : List Bytes} {s last : codec.Aead × Bytes} {out : Bytes}
    (h : feed backend.updateReusing s chunks = .ok (out, last)) :
    feed codec.update s.1 chunks = .ok (out, last.1) := by
  induction chunks generalizing s out with
  | nil =>
    cases h
    rfl
  | cons chunk chunks ih =>
    simp only [feed, updateReusing, streamUpdate_eq, Except.bind_eq_ok_iff,
      Except.pure_eq_ok_iff] at h
    obtain ⟨⟨ct, enc, ct'⟩, ⟨⟨ct'', enc'⟩, hupdate, heq⟩, ⟨rest, last'⟩, hrest, heq'⟩ := h
    cases heq
    cases heq'
    have hfeed : feed codec.update enc' chunks = .ok (rest, last'.1) := ih hrest
    simp [feed, hupdate, hfeed]

/-- The codec as `publish_stream` uses it. -/
def toCodec : Codec where
  Aead := codec.Aead × Bytes
  Zstd := codec.Zstd
  -- A call starts with an empty buffer.
  encryptStream cek nonce := do
    let enc ← codec.encryptStream cek nonce
    return (enc, [])
  update := backend.updateReusing
  finalize s := codec.finalize s.1
  decrypt := codec.decrypt
  compressStream := codec.compressStream
  write := codec.write
  finish := codec.finish
  decompress := codec.decompress
  decrypt_encrypt := by
    intro cek nonce start chunks out last tag hstart hfeed htag
    simp only [Except.bind_eq_ok_iff, Except.pure_eq_ok_iff] at hstart
    obtain ⟨enc, henc, rfl⟩ := hstart
    exact codec.decrypt_encrypt henc (backend.feed_of_feed_updateReusing hfeed) htag
  decompress_compress := codec.decompress_compress

end Backend

/-! ## The plaintext of an upload -/

namespace Pipeline

variable {codec : Codec} {s s' : Pipeline codec}

theorem plain_encrypt {compressed : Bytes} {out : Option Bytes}
    (h : s.encrypt compressed = .ok (out, s')) : s'.plain = s.plain := by
  unfold encrypt at h
  split at h
  · cases h
    rfl
  · simp only [Except.bind_eq_ok_iff, Except.pure_eq_ok_iff] at h
    obtain ⟨r, -, heq⟩ := h
    cases heq
    rfl

/-- The hasher of the plaintext is fed with the chunks one after the other. -/
theorem plain_absorbAll {chunks : List Bytes} (h : s.absorbAll (chunks.map .ok) = .ok s') :
    s'.plain = s.plain ++ chunks.flatten := by
  induction chunks generalizing s with
  | nil =>
    cases h
    simp
  | cons chunk chunks ih =>
    simp only [List.map_cons, absorbAll, absorb, Except.bind_eq_ok_iff, Except.mapError_ok,
      Except.ok_bind] at h
    obtain ⟨⟨out, t⟩, ⟨⟨compressed, zenc⟩, -, hencrypt⟩, hrest⟩ := h
    rw [ih hrest, plain_encrypt hencrypt, List.flatten_cons, List.append_assoc]

end Pipeline

/-- The plaintext of the artifact of an upload is the concatenation of its chunks. -/
theorem Upload.Makes.plain_eq {codec : Codec} {up : Upload} {cek : Vector UInt8 cekLen}
    {nonce : Vector UInt8 nonceLen} {a : Sealed} (h : up.Makes codec cek nonce a)
    {chunks : List Bytes} (hbody : up.body = chunks.map .ok) : a.plain = chunks.flatten := by
  obtain ⟨-, s, hstart, hseal⟩ := h
  simp only [Pipeline.sealAll, Pipeline.drain, Except.bind_eq_ok_iff,
    Except.pure_eq_ok_iff] at hseal
  obtain ⟨t, hall, ⟨out, u⟩, ⟨tail, -, hencrypt⟩, tag, -, rfl⟩ := hseal
  have hempty : s.plain = [] := (Pipeline.empty_of_start hstart).1
  rw [hbody] at hall
  calc u.plain = t.plain := Pipeline.plain_encrypt hencrypt
    _ = s.plain ++ chunks.flatten := Pipeline.plain_absorbAll hall
    _ = chunks.flatten := by rw [hempty, List.nil_append]

/-! ## A call that succeeds -/

/-- The sink of a call has written some content, and blobs and index are those of `x`. -/
structure Written (x : Store) (seq : ℕ) (content : Bytes) (y : Store) : Prop where
  temp : y.files (.temp seq) = some content
  blobs : ∀ outer, y.files (.blob outer) = x.files (.blob outer)
  index : y.index = x.index

section Success

variable {codec : Codec} {x y z : Store} {seq : ℕ} {content : Bytes}
  {faults rest : List (Option (Fault InternalError))}

/-- An operation that is answered with a result was executed. -/
theorem exec_of_run_perform {op : StoreOp} {r : op.Reply}
    (h : (perform op).run contentStore faults x = (.ok r, rest, y)) :
    contentStore.exec op x = (.ok r, y) :=
  (Prog.run_perform_eq_ok_iff.mp h).2.2

/-- A sink starts with an empty temp file. -/
theorem of_run_beginSink (h : beginSink.run contentStore faults x = (.ok seq, rest, y)) :
    Written x seq [] y := by
  obtain ⟨_, _, _, hdir, htemp⟩ := Prog.run_bind_eq_ok_iff.mp h
  cases exec_of_run_perform hdir
  cases exec_of_run_perform htemp
  exact ⟨by simp, by simp, rfl⟩

theorem Written.of_run_writeAll (hy : Written x seq content y) {out : Option Bytes}
    (h : (writeAll seq out).run contentStore faults y = (.ok (), rest, z)) :
    Written x seq (content ++ out.getD []) z := by
  cases out with
  | none =>
    cases h
    simpa using hy
  | some bytes =>
    cases exec_of_run_perform h
    refine ⟨?_, fun outer => ?_, hy.index⟩
    · simp [Store.append, hy.temp]
    · simpa [Store.append] using hy.blobs outer

/-- The loop over the body: hashers and temp file stay aligned. -/
theorem Written.of_run_streamBody {cek : Vector UInt8 cekLen} {nonce : Vector UInt8 nonceLen}
    {s s' : Pipeline codec} (hs : s.Fed cek nonce) (hy : Written x seq s.cipher y)
    {body : List (Except String Bytes)}
    (h : (streamBody seq s body).run contentStore faults y = (.ok s', rest, z)) :
    s.absorbAll body = .ok s' ∧ s'.Fed cek nonce ∧ Written x seq s'.cipher z := by
  induction body generalizing s y faults with
  | nil =>
    obtain ⟨_, _, _, hreceive, hret⟩ := Prog.run_bind_eq_ok_iff.mp h
    cases exec_of_run_perform hreceive
    cases hret
    exact ⟨rfl, hs, hy⟩
  | cons chunk body ih =>
    obtain ⟨_, _, _, hreceive, h⟩ := Prog.run_bind_eq_ok_iff.mp h
    cases exec_of_run_perform hreceive
    obtain ⟨⟨out, t⟩, _, _, hlift, h⟩ := Prog.run_bind_eq_ok_iff.mp h
    obtain ⟨habsorb, rfl, rfl⟩ := Prog.run_lift_eq_ok_iff.mp hlift
    obtain ⟨⟨⟩, _, _, hwrite, h⟩ := Prog.run_bind_eq_ok_iff.mp h
    obtain ⟨ht, hcipher⟩ := hs.absorb habsorb
    -- The file grows by the output of this chunk, be it empty, and so does the ciphertext.
    have hwritten := hy.of_run_writeAll hwrite
    rw [← hcipher] at hwritten
    obtain ⟨hall, hfed, hz⟩ := ih ht hwritten h
    exact ⟨by rw [Pipeline.absorbAll, habsorb]; exact hall, hfed, hz⟩

/-- The sink receives the whole artifact. -/
theorem Written.of_run_streamAll {cek : Vector UInt8 cekLen} {nonce : Vector UInt8 nonceLen}
    {s : Pipeline codec} (hs : s.Fed cek nonce) (hy : Written x seq s.cipher y)
    {body : List (Except String Bytes)} {a : Sealed}
    (h : (streamAll seq s body).run contentStore faults y = (.ok a, rest, z)) :
    s.sealAll body = .ok a ∧ Written x seq a.cipher z := by
  obtain ⟨t, _, _, hbody, h⟩ := Prog.run_bind_eq_ok_iff.mp h
  obtain ⟨hall, ht, hwritten⟩ := hy.of_run_streamBody hs hbody
  obtain ⟨⟨out, u⟩, _, _, hlift, h⟩ := Prog.run_bind_eq_ok_iff.mp h
  obtain ⟨hdrain, rfl, rfl⟩ := Prog.run_lift_eq_ok_iff.mp hlift
  obtain ⟨⟨⟩, _, _, hwrite, h⟩ := Prog.run_bind_eq_ok_iff.mp h
  have hcipher : u.cipher = t.cipher ++ out.getD [] := ht.cipher_drain hdrain
  have hwritten := hwritten.of_run_writeAll hwrite
  rw [← hcipher] at hwritten
  obtain ⟨tag, _, _, hlift, h⟩ := Prog.run_bind_eq_ok_iff.mp h
  obtain ⟨htag, rfl, rfl⟩ := Prog.run_lift_eq_ok_iff.mp hlift
  obtain ⟨⟨⟩, _, _, hwrite, hret⟩ := Prog.run_bind_eq_ok_iff.mp h
  cases hret
  refine ⟨?_, hwritten.of_run_writeAll hwrite⟩
  simp [Pipeline.sealAll, hall, hdrain, htag, pure, Except.pure]

/-- The existence test changes nothing, and finds only what is there. -/
theorem of_run_tryExists {outer : ContentHash} {present : Bool}
    (h : (commitSink.tryExists outer).run contentStore faults y = (.ok present, rest, z)) :
    z = y ∧ (present = true → ∃ b, y.files (.blob outer) = some b) := by
  rw [commitSink.tryExists, Prog.run_call] at h
  rcases contentStore.answer_cases faults.head?.join (.tryExists outer) y with
    hanswer | ⟨why, y', hanswer, hy'⟩
  · rw [hanswer] at h
    cases h
    exact ⟨rfl, Option.isSome_iff_exists.mp⟩
  · obtain rfl : y' = y := by
      rcases hy' with rfl | rfl | ⟨n, rfl⟩ <;> rfl
    rw [hanswer] at h
    cases why with
    -- An error of the test counts as absence.
    | failed e =>
      cases h
      exact ⟨rfl, nofun⟩
    | dropped => cases h

/-- Removing a temp file leaves the blobs and the index alone, whatever becomes of it. -/
theorem run_removeTemp (seq : ℕ) (faults : List (Option (Fault InternalError))) (y : Store) :
    let z := ((commitSink.removeTemp seq).run contentStore faults y).2.2
    (∀ outer, z.files (.blob outer) = y.files (.blob outer)) ∧ z.index = y.index := by
  have hissues : (commitSink.removeTemp seq).Issues fun op : StoreOp => op = .remove seq := by
    refine ⟨rfl, fun r => ?_⟩
    match r with
    | .ok _ => trivial
    | .error (.failed _) => trivial
    | .error .dropped => trivial
  refine Prog.run_invariant (S := storeOps) (I := fun z : Store =>
    (∀ outer, z.files (.blob outer) = y.files (.blob outer)) ∧ z.index = y.index) ?_ hissues faults
    ⟨fun _ => rfl, rfl⟩
  rintro _ rfl z hz
  refine ⟨?_, fun _ => hz⟩
  change (∀ outer, (z.remove seq).2.files (.blob outer) = _) ∧ (z.remove seq).2.index = _
  unfold Store.remove
  split
  · simpa using hz
  · exact hz

/-- A commit that succeeds stores the content of the sink, unless a blob was found there. -/
theorem Written.of_run_commitSink (hy : Written x seq content y) {outer : ContentHash}
    (hfound : ∀ b, x.files (.blob outer) = some b → b = content)
    (h : (commitSink seq outer).run contentStore faults y = (.ok (), rest, z)) :
    z.files (.blob outer) = some content ∧ z.index = x.index := by
  obtain ⟨_, _, _, hflush, h⟩ := Prog.run_bind_eq_ok_iff.mp h
  cases exec_of_run_perform hflush
  obtain ⟨_, _, _, hsync, h⟩ := Prog.run_bind_eq_ok_iff.mp h
  cases exec_of_run_perform hsync
  obtain ⟨present, faults', y', hexists, h⟩ := Prog.run_bind_eq_ok_iff.mp h
  obtain ⟨rfl, hpresent⟩ := of_run_tryExists hexists
  cases present with
  | true =>
    obtain ⟨b, hb⟩ := hpresent rfl
    have hremoved := run_removeTemp seq faults' y'
    change (commitSink.removeTemp seq).run contentStore faults' y' = _ at h
    rw [h] at hremoved
    -- The blob that was found is the one that the call would have stored.
    have hcontent : b = content := hfound b ((hy.blobs outer).symm.trans hb)
    exact ⟨by rw [hremoved.1, hb, hcontent], hremoved.2.trans hy.index⟩
  | false =>
    have hrename : y'.rename seq outer = (.ok (), z) := exec_of_run_perform h
    rw [Store.rename, hy.temp] at hrename
    cases hrename
    exact ⟨by simp, hy.index⟩

/-- A first call that succeeds has stored the artifact of its upload and its entry. -/
theorem of_run_publishStream {sha : Sha256} {up : Upload} {ref : ArtifactRef}
    (hfirst : ∀ cek nonce a, up.Makes codec cek nonce a → x.index (digest sha a.plain) = none)
    (hfound : ∀ cek nonce a b, up.Makes codec cek nonce a →
      x.files (.blob (digest sha a.cipher)) = some b → b = a.cipher)
    (h : (publishStream codec sha up).run contentStore faults x = (.ok ref, rest, y)) :
    ∃ cek nonce a, up.Makes codec cek nonce a ∧ ref = (entryOf sha cek nonce a).ref ∧
      y.index ref.inner = some (entryOf sha cek nonce a) ∧
      y.files (.blob ref.outer) = some a.cipher := by
  obtain ⟨⟨cek, nonce⟩, _, _, hlift, h⟩ := Prog.run_bind_eq_ok_iff.mp h
  obtain ⟨hrandom, rfl, rfl⟩ := Prog.run_lift_eq_ok_iff.mp hlift
  obtain ⟨s, _, _, hlift, h⟩ := Prog.run_bind_eq_ok_iff.mp h
  obtain ⟨hstart, rfl, rfl⟩ := Prog.run_lift_eq_ok_iff.mp hlift
  obtain ⟨seq, _, _, hbegin, h⟩ := Prog.run_bind_eq_ok_iff.mp h
  have hwritten := of_run_beginSink hbegin
  rw [← (Pipeline.empty_of_start hstart).2] at hwritten
  obtain ⟨o, _, _, hblob, h⟩ := Prog.run_bind_eq_ok_iff.mp h
  rw [Prog.run_onStop_eq_ok_iff] at hblob
  obtain ⟨a, _, _, hstream, hblob⟩ := Prog.run_bind_eq_ok_iff.mp hblob
  obtain ⟨hseal, hwritten⟩ := hwritten.of_run_streamAll (Pipeline.fed_start hstart) hstream
  have ha : up.Makes codec cek nonce a := ⟨Except.mapError_eq_ok_iff.mp hrandom, s, hstart, hseal⟩
  obtain ⟨found, _, _, hget, hblob⟩ := Prog.run_bind_eq_ok_iff.mp hblob
  cases exec_of_run_perform hget
  -- Nothing is indexed under the plaintext, so the call commits its blob.
  have hnone : x.index (entryOf sha cek nonce a).inner = none := hfirst cek nonce a ha
  rw [hwritten.index, hnone] at hblob
  obtain ⟨⟨⟩, _, _, hcommit, hret⟩ := Prog.run_bind_eq_ok_iff.mp hblob
  cases hret
  obtain ⟨hfile, hindex⟩ := hwritten.of_run_commitSink (fun b => hfound cek nonce a b ha) hcommit
  obtain ⟨⟨⟩, _, _, hput, hret⟩ := Prog.run_bind_eq_ok_iff.mp h
  cases exec_of_run_perform hput
  cases hret
  refine ⟨cek, nonce, a, ha, rfl, Store.index_put_of_none (by rw [hindex, hnone]), ?_⟩
  rw [Store.files_put]
  exact hfile

end Success

/-! ## Calls without faults -/

section NoFaults

variable {codec : Codec} {x y : Store} {seq : ℕ}

/-- An operation that meets no fault is executed. -/
theorem run_perform_of_exec {op : StoreOp} {r : op.Reply}
    (h : contentStore.exec op x = (.ok r, y)) :
    (perform op).run contentStore [] x = (.ok r, [], y) :=
  Prog.run_perform_eq_ok_iff.mpr ⟨rfl, rfl, h⟩

theorem exists_run_writeAll (seq : ℕ) (out : Option Bytes) (x : Store) :
    ∃ y, (writeAll seq out).run contentStore [] x = (.ok (), [], y) := by
  cases out with
  | none => exact ⟨x, rfl⟩
  | some bytes => exact ⟨_, run_perform_of_exec rfl⟩

theorem exists_run_streamBody {s s' : Pipeline codec} {body : List (Except String Bytes)}
    (h : s.absorbAll body = .ok s') (seq : ℕ) (x : Store) :
    ∃ y, (streamBody seq s body).run contentStore [] x = (.ok s', [], y) := by
  induction body generalizing s x with
  | nil =>
    cases h
    exact ⟨x, rfl⟩
  | cons chunk body ih =>
    simp only [Pipeline.absorbAll, Except.bind_eq_ok_iff] at h
    obtain ⟨⟨out, t⟩, habsorb, hrest⟩ := h
    obtain ⟨y, hwrite⟩ := exists_run_writeAll seq out x
    obtain ⟨z, hbody⟩ := ih hrest y
    refine ⟨z, ?_⟩
    rw [streamBody, Prog.run_bind_of_ok (run_perform_of_exec rfl), habsorb,
      Prog.run_bind_of_ok (Prog.run_lift_eq_ok_iff.mpr ⟨rfl, rfl, rfl⟩)]
    exact (Prog.run_bind_of_ok hwrite _).trans hbody

theorem exists_run_streamAll {s : Pipeline codec} {body : List (Except String Bytes)} {a : Sealed}
    (h : s.sealAll body = .ok a) (seq : ℕ) (x : Store) :
    ∃ y, (streamAll seq s body).run contentStore [] x = (.ok a, [], y) := by
  simp only [Pipeline.sealAll, Except.bind_eq_ok_iff, Except.pure_eq_ok_iff] at h
  obtain ⟨t, hall, ⟨out, u⟩, hdrain, tag, htag, rfl⟩ := h
  obtain ⟨y₁, hbody⟩ := exists_run_streamBody hall seq x
  obtain ⟨y₂, hwrite⟩ := exists_run_writeAll seq out y₁
  obtain ⟨y₃, htail⟩ := exists_run_writeAll seq (some tag) y₂
  refine ⟨y₃, ?_⟩
  rw [streamAll, Prog.run_bind_of_ok hbody, hdrain,
    Prog.run_bind_of_ok (Prog.run_lift_eq_ok_iff.mpr ⟨rfl, rfl, rfl⟩)]
  refine (Prog.run_bind_of_ok hwrite _).trans ?_
  dsimp only
  rw [htag, Prog.run_bind_of_ok (Prog.run_lift_eq_ok_iff.mpr ⟨rfl, rfl, rfl⟩)]
  exact Prog.run_bind_of_ok htail _

theorem exists_run_commitSink {content : Bytes} (hy : Written x seq content y)
    (outer : ContentHash) :
    ∃ z, (commitSink seq outer).run contentStore [] y = (.ok (), [], z) := by
  have hexists : (commitSink.tryExists outer).run contentStore [] y =
      (.ok (y.files (.blob outer)).isSome, [], y) := rfl
  rw [commitSink, Prog.run_bind_of_ok (run_perform_of_exec rfl),
    Prog.run_bind_of_ok (run_perform_of_exec rfl), Prog.run_bind_of_ok hexists]
  cases (y.files (.blob outer)).isSome with
  | true =>
    have hremove : contentStore.exec (.remove seq) y = (.ok (), y.setFile (.temp seq) none) := by
      change y.remove seq = _
      rw [Store.remove, hy.temp]
    refine ⟨y.setFile (.temp seq) none, ?_⟩
    change (commitSink.removeTemp seq).run contentStore [] y = _
    rw [commitSink.removeTemp, Prog.run_call, List.head?_nil, Option.join_none,
      Service.answer_none_of_ok (S := storeOps) hremove]
    rfl
  | false =>
    have hrename : contentStore.exec (.rename seq outer) y =
        (.ok (), (y.setFile (.blob outer) (some content)).setFile (.temp seq) none) := by
      change y.rename seq outer = _
      rw [Store.rename, hy.temp]
    exact ⟨_, run_perform_of_exec hrename⟩

/-- A call without faults succeeds if the encoders do. -/
theorem exists_run_publishStream (sha : Sha256) {up : Upload} {cek : Vector UInt8 cekLen}
    {nonce : Vector UInt8 nonceLen} {a : Sealed} (ha : up.Makes codec cek nonce a) (x : Store) :
    ∃ ref y, (publishStream codec sha up).run contentStore [] x = (.ok ref, [], y) := by
  obtain ⟨hrandom, s, hstart, hseal⟩ := ha
  have hbegin : beginSink.run contentStore [] x =
      (.ok x.tempSeq, [], x.takeSeq.setFile (.temp x.tempSeq) (some [])) := rfl
  have hwritten : Written x x.tempSeq s.cipher
      (x.takeSeq.setFile (.temp x.tempSeq) (some [])) := by
    rw [(Pipeline.empty_of_start hstart).2]
    exact of_run_beginSink hbegin
  obtain ⟨z, hstream⟩ := exists_run_streamAll hseal x.tempSeq
    (x.takeSeq.setFile (.temp x.tempSeq) (some []))
  obtain ⟨-, hwritten⟩ := hwritten.of_run_streamAll (Pipeline.fed_start hstart) hstream
  have hget : (perform (.indexGet (entryOf sha cek nonce a).inner)).run contentStore [] z =
      (.ok (z.index (entryOf sha cek nonce a).inner), [], z) := run_perform_of_exec rfl
  rw [publishStream, hrandom, Except.mapError_ok,
    Prog.run_bind_of_ok (Prog.run_lift_eq_ok_iff.mpr ⟨rfl, rfl, rfl⟩)]
  dsimp only
  rw [hstart, Prog.run_bind_of_ok (Prog.run_lift_eq_ok_iff.mpr ⟨rfl, rfl, rfl⟩),
    Prog.run_bind_of_ok hbegin]
  -- Behind the stream the index has an entry for the plaintext, or the sink is committed.
  have hblob : ∃ o z', (publishBlob sha cek nonce x.tempSeq s up.body).run contentStore []
      (x.takeSeq.setFile (.temp x.tempSeq) (some [])) = (.ok o, [], z') := by
    rw [publishBlob, Prog.run_bind_of_ok hstream]
    dsimp only
    rw [Prog.run_bind_of_ok hget]
    cases z.index (entryOf sha cek nonce a).inner with
    | some existing => exact ⟨_, _, rfl⟩
    | none =>
      obtain ⟨z', hcommit⟩ := exists_run_commitSink hwritten (entryOf sha cek nonce a).outer
      exact ⟨_, z', Prog.run_bind_of_ok hcommit _⟩
  obtain ⟨o, z', hblob⟩ := hblob
  rw [Prog.run_bind_of_ok (Prog.run_onStop_eq_ok_iff.mpr hblob)]
  cases o with
  | inl existing => exact ⟨_, _, rfl⟩
  | inr entry => exact ⟨_, _, rfl⟩

end NoFaults

/-! ## The round trip -/

/-- A reference names a plaintext, and what is stored under it decrypts and decompresses to the
plaintext. -/
structure RoundTrips (codec : Codec) (sha : Sha256) (plain : Bytes) (ref : ArtifactRef)
    (y : Store) : Prop where
  inner : ref.inner = digest sha plain
  size : ref.size = plain.length
  stored : ∃ e blob frame, y.index ref.inner = some e ∧ e.ref = ref ∧
    y.files (.blob ref.outer) = some blob ∧ digest sha blob = ref.outer ∧
    codec.decrypt e.cek e.nonce blob = some frame ∧ codec.decompress frame = some plain

/-- A publish call on what other calls have left, in any interleaving: for every way to cut the
plaintext into chunks, a call that succeeds as the first for its plaintext makes the round trip,
whatever faults it meets, and without faults it succeeds if the encoders do. -/
theorem publish_roundtrip {ι : Type} [DecidableEq ι] {codec : Codec} (backend : Backend codec)
    (sha : Sha256) (calls : ι → Upload) (schedule : List (Sys.Turn storeOps ι))
    (random : Except String (Vector UInt8 cekLen × Vector UInt8 nonceLen)) (chunks : List Bytes)
    (hsha : CiphersCollisionFree backend.toCodec sha
      fun o : Option ι => o.elim ⟨random, chunks.map .ok⟩ calls) :
    let x := (schedule.foldl (Sys.next contentStore)
      (startPublishing backend.toCodec sha calls)).shared
    let publish := publishStream backend.toCodec sha ⟨random, chunks.map .ok⟩
    x.index (digest sha chunks.flatten) = none →
      (∀ faults ref rest y, publish.run contentStore faults x = (.ok ref, rest, y) →
        RoundTrips codec sha chunks.flatten ref y) ∧
      ∀ cek nonce a, Upload.Makes backend.toCodec ⟨random, chunks.map .ok⟩ cek nonce a →
        ∃ ref y, publish.run contentStore [] x = (.ok ref, [], y) := by
  intro x publish hindex
  refine ⟨fun faults ref rest y hrun => ?_, fun cek nonce a ha =>
    exists_run_publishStream sha ha x⟩
  have hcalls : CiphersCollisionFree backend.toCodec sha calls :=
    fun i j => hsha (some i) (some j)
  have hx : Consistent backend.toCodec sha calls x :=
    ((owned_startPublishing hcalls).run (allMeet_anyOp schedule _)).1.1
  obtain ⟨cek, nonce, a, ha, rfl, hentry, hblob⟩ := of_run_publishStream
    (fun cek nonce a ha => by rw [ha.plain_eq rfl]; exact hindex)
    (fun cek nonce a b ha hb => by
      -- A blob with the hash of the ciphertext was stored by one of the calls, and is the same.
      obtain ⟨e, ⟨i, cek', nonce', a', ha', rfl, rfl⟩, houter⟩ := hx.blobs _ _ hb
      exact hsha (some i) none _ _ _ _ _ _ ha' ha houter) hrun
  obtain ⟨hsize, frame, hdecrypt, hdecompress⟩ := ha.decodes
  rw [ha.plain_eq rfl] at hsize hdecompress
  exact ⟨congrArg (digest sha) (ha.plain_eq rfl), hsize, entryOf sha cek nonce a, a.cipher, frame,
    hentry, rfl, hblob, rfl, hdecrypt, hdecompress⟩

/-- A backend that overwrites the start of the buffer with the ciphertext, which is as long as the
plaintext. -/
def Backend.overwriting (codec : Codec)
    (hlength : ∀ enc plaintext ct enc', codec.update enc plaintext = .ok (ct, enc') →
      ct.length = plaintext.length) : Backend codec where
  update enc plaintext out := do
    let (ct, enc) ← codec.update enc plaintext
    return (ct ++ out.drop ct.length, enc)
  update_eq enc plaintext out hout := by
    cases hupdate : codec.update enc plaintext with
    | error e => rfl
    | ok r =>
      obtain ⟨ct, enc'⟩ := r
      have hdrop : out.drop ct.length = [] := by
        rw [hlength enc plaintext ct enc' hupdate, ← hout, List.drop_length]
      rw [Except.ok_bind]
      dsimp only
      rw [hdrop, List.append_nil]
      rfl

/-- The backend of the sample codec. -/
def sampleBackend : Backend sampleCodec :=
  .overwriting sampleCodec fun enc plaintext ct enc' h => by
    cases h
    exact List.length_mapIdx

/-- The bytes `abc` in three chunks, one of them empty. -/
def sampleChunks : List Bytes :=
  [[97], [], [98, 99]]

/-- An upload of these chunks, and an earlier one of the same bytes. -/
def sampleCalls (o : Option Unit) : Upload :=
  o.elim ⟨(sampleUploads false).random, sampleChunks.map .ok⟩ fun _ => sampleUploads true

theorem makes_sampleCalls (o : Option Unit) :
    ∃ cek nonce, (sampleCalls o).Makes sampleBackend.toCodec cek nonce
      ⟨[97, 98, 99], sampleCipher o.isSome, 3⟩ := by
  cases o with
  | none => exact ⟨_, _, rfl, _, rfl, by rfl⟩
  | some _ => exact ⟨_, _, rfl, _, rfl, by rfl⟩

/-- The chunks are published after the earlier upload was dropped in the middle of a write. -/
theorem publish_roundtrip_three_chunks :
    let schedule : List (Sys.Turn storeOps Unit) :=
      List.replicate 4 ((), none) ++ [((), some (.torn 5 .dropped)), ((), none)]
    let x := (schedule.foldl (Sys.next contentStore)
      (startPublishing sampleBackend.toCodec sampleSha fun i => sampleCalls (some i))).shared
    ∃ ref y, (publishStream sampleBackend.toCodec sampleSha (sampleCalls none)).run contentStore []
        x = (.ok ref, [], y) ∧ RoundTrips sampleCodec sampleSha [97, 98, 99] ref y := by
  intro schedule x
  have hsha : CiphersCollisionFree sampleBackend.toCodec sampleSha sampleCalls :=
    ciphersCollisionFree_of_makes makes_sampleCalls
  have hindex : x.index (digest sampleSha sampleChunks.flatten) = none := by decide +kernel
  have hround := publish_roundtrip sampleBackend sampleSha (fun i => sampleCalls (some i)) schedule
    (sampleUploads false).random sampleChunks hsha hindex
  obtain ⟨cek, nonce, ha⟩ := makes_sampleCalls none
  obtain ⟨ref, y, hrun⟩ := hround.2 cek nonce _ ha
  exact ⟨ref, y, hrun, hround.1 [] ref [] y hrun⟩

end SoftwareTower
