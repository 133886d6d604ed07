import SumoProvision.Foundations.Prog
import SumoProvision.Foundations.Result
import SumoProvision.Wire.ContentHash
import SumoProvision.SoftwareTower.Database

/-!
# The content service

`AppState::publish_stream` over the blob directory `FsBlobStore` and the artifact index `PgIndex`.
An upload is compressed and encrypted chunk by chunk into a temp file, which is renamed to its
content address; then the key and the hashes are recorded in the index. Publishing is a program over
the `Store`, one statement for each file operation and each SQL statement, so that calls interleave
between any two of them and each statement can fail or be cut off.

AES-128-GCM and zstd come from other crates and are the parameter `Codec`, with the law that reading
a stream back gives what was written. The random key and IV of a call are part of its `Upload`.
-/

namespace SoftwareTower

open Wire

/-- `ContentHash::hasher()`, fed with the bytes and finalized. -/
def digest (sha : Sha256) (bytes : Bytes) : ContentHash :=
  sha ⟨bytes.toArray⟩

/-! ## Compression and encryption -/

/-- Feed chunks to a streaming codec and concatenate what it emits. -/
def feed {State : Type} (step : State → Bytes → Except String (Bytes × State)) :
    State → List Bytes → Except String (Bytes × State)
  | s, [] => .ok ([], s)
  | s, chunk :: chunks => do
    let (out, s) ← step s chunk
    let (rest, s) ← feed step s chunks
    return (out ++ rest, s)

/-- Size of the AES-128-GCM content-encryption key. -/
abbrev cekLen : ℕ := 16

/-- Size of the GCM IV. -/
abbrev nonceLen : ℕ := 12

/-- The streaming codecs and the laws that a stream reads back as what was written. -/
structure Codec where
  /-- The state of an AES-GCM encryption. -/
  Aead : Type
  /-- The state of a zstd compression whose output buffer is drained. -/
  Zstd : Type
  encryptStream : Vector UInt8 cekLen → Vector UInt8 nonceLen → Except String Aead
  update : Aead → Bytes → Except String (Bytes × Aead)
  finalize : Aead → Except String Bytes
  decrypt : Vector UInt8 cekLen → Vector UInt8 nonceLen → Bytes → Option Bytes
  compressStream : ℤ → Except String Zstd
  write : Zstd → Bytes → Except String (Bytes × Zstd)
  finish : Zstd → Except String Bytes
  decompress : Bytes → Option Bytes
  /-- The outputs of the updates followed by the tag decrypt to the inputs. -/
  decrypt_encrypt : ∀ {cek nonce start chunks out last tag},
    encryptStream cek nonce = .ok start → feed update start chunks = .ok (out, last) →
      finalize last = .ok tag → decrypt cek nonce (out ++ tag) = some chunks.flatten
  /-- The outputs of the writes followed by the rest of the frame decompress to the inputs. -/
  decompress_compress : ∀ {level start chunks out last rest},
    compressStream level = .ok start → feed write start chunks = .ok (out, last) →
      finish last = .ok rest → decompress (out ++ rest) = some chunks.flatten

/-- zstd compression level for published artifacts. -/
def zstdLevel : ℤ := 3

/-- A request to publish: the key and IV that the random generator gives it, and the chunks of its
body, up to an error of the connection. -/
structure Upload where
  random : Except String (Vector UInt8 cekLen × Vector UInt8 nonceLen)
  body : List (Except String Bytes)

/-- What `publish_stream` carries from chunk to chunk: the encoders, what has gone into the two
hashers, and the size so far. -/
structure Pipeline (codec : Codec) where
  enc : codec.Aead
  zenc : codec.Zstd
  plain : Bytes
  cipher : Bytes
  size : ℕ

/-- A complete artifact, before it is hashed. -/
structure Sealed where
  plain : Bytes
  cipher : Bytes
  size : ℕ

/-- An error of the encoders. -/
def codecError (what : String) (e : String) : AppError :=
  .internal (.other s!"{what}: {e}")

namespace Pipeline

variable {codec : Codec}

/-- `StreamEncryptor::new` and `zstd::Encoder::new`. -/
def start (codec : Codec) (cek : Vector UInt8 cekLen) (nonce : Vector UInt8 nonceLen) :
    Except AppError (Pipeline codec) := do
  let enc ← (codec.encryptStream cek nonce).mapError (codecError "encryptor init failed")
  let zenc ← (codec.compressStream zstdLevel).mapError (codecError "zstd init failed")
  return ⟨enc, zenc, [], [], 0⟩

/-- Encrypt what zstd emitted; nothing if that is nothing. -/
def encrypt (s : Pipeline codec) (compressed : Bytes) :
    Except AppError (Option Bytes × Pipeline codec) :=
  if compressed.isEmpty then .ok (none, s)
  else do
    let (ct, enc) ← (codec.update s.enc compressed).mapError (codecError "encrypt failed")
    return (some ct, { s with enc, cipher := s.cipher ++ ct })

/-- Hash, compress and encrypt one chunk of the body. -/
def absorb (s : Pipeline codec) (chunk : Except String Bytes) :
    Except AppError (Option Bytes × Pipeline codec) := do
  let chunk ← chunk.mapError fun e => .badRequest s!"upload aborted: {e}"
  let (compressed, zenc) ← (codec.write s.zenc chunk).mapError (codecError "compress failed")
  encrypt { s with zenc, plain := s.plain ++ chunk, size := s.size + chunk.length } compressed

/-- Compress and encrypt what zstd still holds. -/
def drain (s : Pipeline codec) : Except AppError (Option Bytes × Pipeline codec) := do
  let tail ← (codec.finish s.zenc).mapError (codecError "compress finalize failed")
  encrypt s tail

/-- The GCM tag. -/
def tag (s : Pipeline codec) : Except AppError Bytes :=
  (codec.finalize s.enc).mapError (codecError "encrypt finalize failed")

end Pipeline

/-! ## The store -/

/-- One artifact's index entry: how to find and decrypt its blob. -/
structure ArtifactEntry where
  inner : ContentHash
  outer : ContentHash
  cek : Vector UInt8 cekLen
  nonce : Vector UInt8 nonceLen
  size : ℕ
  deriving DecidableEq

/-- The reference to a published artifact. -/
structure ArtifactRef where
  inner : ContentHash
  outer : ContentHash
  size : ℕ
  deriving DecidableEq

/-- The reference to an indexed artifact. -/
def ArtifactEntry.ref (e : ArtifactEntry) : ArtifactRef :=
  ⟨e.inner, e.outer, e.size⟩

/-- The files of the blob directory: `.tmp.<pid>.<seq>` and `<hex outer hash>`. -/
inductive FileName where
  | temp (seq : ℕ)
  | blob (outer : ContentHash)
  deriving DecidableEq

/-- The blob directory, the artifact index by inner hash, and `TEMP_SEQ`. -/
structure Store where
  files : FileName → Option Bytes
  index : ContentHash → Option ArtifactEntry
  tempSeq : ℕ

namespace Store

/-- A new store. -/
def empty : Store :=
  ⟨fun _ => none, fun _ => none, 0⟩

/-- `TEMP_SEQ.fetch_add(1)`. -/
def takeSeq (x : Store) : Store :=
  { x with tempSeq := x.tempSeq + 1 }

/-- Set the content of a file. -/
def setFile (x : Store) (name : FileName) (content : Option Bytes) : Store :=
  { x with files := Function.update x.files name content }

/-- Append to a file, if it is still in the directory. -/
def append (x : Store) (name : FileName) (bytes : Bytes) : Store :=
  x.setFile name ((x.files name).map (· ++ bytes))

@[simp] theorem files_setFile (x : Store) (name n : FileName) (content : Option Bytes) :
    (x.setFile name content).files n = if n = name then content else x.files n :=
  Function.update_apply ..

@[simp] theorem index_setFile (x : Store) (name : FileName) (content : Option Bytes) :
    (x.setFile name content).index = x.index := rfl

@[simp] theorem tempSeq_setFile (x : Store) (name : FileName) (content : Option Bytes) :
    (x.setFile name content).tempSeq = x.tempSeq := rfl

@[simp] theorem files_takeSeq (x : Store) : x.takeSeq.files = x.files := rfl

@[simp] theorem index_takeSeq (x : Store) : x.takeSeq.index = x.index := rfl

@[simp] theorem tempSeq_takeSeq (x : Store) : x.takeSeq.tempSeq = x.tempSeq + 1 := rfl

/-- `rename`: atomic, and replaces the destination. -/
def rename (x : Store) (seq : ℕ) (outer : ContentHash) : Except InternalError Unit × Store :=
  match x.files (.temp seq) with
  | some bytes => (.ok (), (x.setFile (.blob outer) (some bytes)).setFile (.temp seq) none)
  | none => (.error (.io "not found"), x)

/-- `remove_file`. -/
def remove (x : Store) (seq : ℕ) : Except InternalError Unit × Store :=
  match x.files (.temp seq) with
  | some _ => (.ok (), x.setFile (.temp seq) none)
  | none => (.error (.io "not found"), x)

/-- `INSERT INTO artifacts … ON CONFLICT (inner_hash) DO NOTHING`. -/
def put (x : Store) (e : ArtifactEntry) : Store :=
  match x.index e.inner with
  | some _ => x
  | none => { x with index := Function.update x.index e.inner (some e) }

@[simp] theorem files_put (x : Store) (e : ArtifactEntry) : (x.put e).files = x.files := by
  unfold put
  split <;> rfl

theorem index_put_of_none {x : Store} {e : ArtifactEntry} (h : x.index e.inner = none) :
    (x.put e).index e.inner = some e := by
  simp [put, h]

end Store

/-- The operations of `publish_stream` that can fail or be waited for. -/
inductive StoreOp where
  /-- Wait for the next chunk of the body. -/
  | receive
  | createDirAll
  /-- Take the next temp name and create the file. -/
  | createTemp
  | write (seq : ℕ) (bytes : Bytes)
  | flush (seq : ℕ)
  | syncAll (seq : ℕ)
  | tryExists (outer : ContentHash)
  | remove (seq : ℕ)
  | rename (seq : ℕ) (outer : ContentHash)
  | indexGet (inner : ContentHash)
  | indexPut (e : ArtifactEntry)

/-- What an operation returns. -/
abbrev StoreOp.Reply : StoreOp → Type
  | .createTemp => ℕ
  | .tryExists _ => Bool
  | .indexGet _ => Option ArtifactEntry
  | _ => Unit

/-- The operations of the content store. -/
abbrev storeOps : Signature where
  Stmt := StoreOp
  Reply := StoreOp.Reply
  Err := InternalError

/-- The content store as a service. A write that is cut off leaves a prefix, and the creation of a
temp file that is cut off has used up its name. -/
def contentStore : Service storeOps Store where
  exec
    | .receive, x => (.ok (), x)
    | .createDirAll, x => (.ok (), x)
    -- The counter is atomic, so the name is new whatever other calls do.
    | .createTemp, x => (.ok x.tempSeq, x.takeSeq.setFile (.temp x.tempSeq) (some []))
    | .write seq bytes, x => (.ok (), x.append (.temp seq) bytes)
    | .flush _, x => (.ok (), x)
    -- Durability is not modelled: what is written is read back.
    | .syncAll _, x => (.ok (), x)
    | .tryExists outer, x => (.ok (x.files (.blob outer)).isSome, x)
    | .remove seq, x => x.remove seq
    | .rename seq outer, x => x.rename seq outer
    | .indexGet inner, x => (.ok (x.index inner), x)
    | .indexPut e, x => (.ok (), x.put e)
  tear
    | n, .write seq bytes, x => x.append (.temp seq) (bytes.take n)
    | _, .createTemp, x => x.takeSeq
    | _, _, x => x

/-! ## Publishing -/

/-- One operation of the store; its errors are internal errors. -/
def perform (op : StoreOp) : Prog storeOps AppError op.Reply :=
  Prog.perform (S := storeOps) op .internal

/-- `FsBlobStore::begin`: the temp file of a new sink. -/
def beginSink : Prog storeOps AppError ℕ := do
  perform .createDirAll
  perform .createTemp

/-- The sink is dropped uncommitted: its temp file is removed, and an error of that is ignored. -/
def dropSink (seq : ℕ) : Prog storeOps AppError Unit :=
  .call (S := storeOps) (.remove seq) fun _ => pure ()

/-- `FsBlobSink::write_all` of an output, if there is one. -/
def writeAll (seq : ℕ) : Option Bytes → Prog storeOps AppError Unit
  | none => pure ()
  | some bytes => perform (.write seq bytes)

/-- The loop over the body. -/
def streamBody {codec : Codec} (seq : ℕ) :
    Pipeline codec → List (Except String Bytes) → Prog storeOps AppError (Pipeline codec)
  | s, [] => do
    perform .receive
    return s
  | s, chunk :: body => do
    perform .receive
    let (out, s) ← Prog.lift (s.absorb chunk)
    writeAll seq out
    streamBody seq s body

/-- Everything the sink receives: the body, the rest of the frame and the tag. -/
def streamAll {codec : Codec} (seq : ℕ) (s : Pipeline codec) (body : List (Except String Bytes)) :
    Prog storeOps AppError Sealed := do
  let s ← streamBody seq s body
  let (out, s) ← Prog.lift s.drain
  writeAll seq out
  let tag ← Prog.lift s.tag
  writeAll seq (some tag)
  return ⟨s.plain, s.cipher ++ tag, s.size⟩

/-- `FsBlobSink::commit`. An error of the existence test counts as absence, and an error of the
removal is ignored. -/
def commitSink (seq : ℕ) (outer : ContentHash) : Prog storeOps AppError Unit := do
  perform (.flush seq)
  perform (.syncAll seq)
  let present ← tryExists
  if present then removeTemp else perform (.rename seq outer)
where
  tryExists : Prog storeOps AppError Bool :=
    .call (S := storeOps) (.tryExists outer) fun
      | .ok present => pure present
      | .error (.failed _) => pure false
      | .error .dropped => .ret (.error .dropped)
  removeTemp : Prog storeOps AppError Unit :=
    .call (S := storeOps) (.remove seq) fun
      | .error .dropped => .ret (.error .dropped)
      | _ => pure ()

/-- The index entry of an artifact. -/
def entryOf (sha : Sha256) (cek : Vector UInt8 cekLen) (nonce : Vector UInt8 nonceLen)
    (a : Sealed) : ArtifactEntry :=
  ⟨digest sha a.plain, digest sha a.cipher, cek, nonce, a.size⟩

/-- Until the sink is committed or no longer needed: stream the artifact, look its plaintext up, and
commit the blob if it is new. -/
def publishBlob {codec : Codec} (sha : Sha256) (cek : Vector UInt8 cekLen)
    (nonce : Vector UInt8 nonceLen) (seq : ℕ) (s : Pipeline codec)
    (body : List (Except String Bytes)) :
    Prog storeOps AppError (ArtifactEntry ⊕ ArtifactEntry) := do
  let artifact ← streamAll seq s body
  let entry := entryOf sha cek nonce artifact
  match ← perform (.indexGet entry.inner) with
  | some existing => return .inl existing
  | none => do
    commitSink seq entry.outer
    return .inr entry

/-- `AppState::publish_stream`. -/
def publishStream (codec : Codec) (sha : Sha256) (up : Upload) :
    Prog storeOps AppError ArtifactRef := do
  let (cek, nonce) ← Prog.lift (up.random.mapError (codecError "encryptor init failed"))
  let s ← Prog.lift (Pipeline.start codec cek nonce)
  let seq ← beginSink
  -- The sink lives until the end of the call; before the commit, dropping it removes the file.
  match ← Prog.onStop (dropSink seq) (publishBlob sha cek nonce seq s up.body) with
  | .inl existing => do
    dropSink seq
    return existing.ref
  | .inr entry => do
    perform (.indexPut entry)
    return entry.ref

/-! ## The artifact of an upload -/

/-- The body of an upload through the pipeline. -/
def Pipeline.absorbAll {codec : Codec} :
    Pipeline codec → List (Except String Bytes) → Except AppError (Pipeline codec)
  | s, [] => .ok s
  | s, chunk :: body => do
    let (_, s) ← s.absorb chunk
    absorbAll s body

/-- A body through the pipeline to its end. -/
def Pipeline.sealAll {codec : Codec} (s : Pipeline codec) (body : List (Except String Bytes)) :
    Except AppError Sealed := do
  let s ← s.absorbAll body
  let (_, s) ← s.drain
  let tag ← s.tag
  return ⟨s.plain, s.cipher ++ tag, s.size⟩

/-- The upload makes an artifact under a key and an IV. -/
structure Upload.Makes (codec : Codec) (up : Upload) (cek : Vector UInt8 cekLen)
    (nonce : Vector UInt8 nonceLen) (a : Sealed) : Prop where
  random : up.random = .ok (cek, nonce)
  sealed : ∃ s, Pipeline.start codec cek nonce = .ok s ∧ s.sealAll up.body = .ok a

section Feed

variable {State : Type} {step : State → Bytes → Except String (Bytes × State)}

theorem feed_append {s t t' : State} {chunks : List Bytes} {out out' chunk : Bytes}
    (h : feed step s chunks = .ok (out, t)) (hstep : step t chunk = .ok (out', t')) :
    feed step s (chunks ++ [chunk]) = .ok (out ++ out', t') := by
  induction chunks generalizing s out with
  | nil =>
    cases h
    simp [feed, hstep]
  | cons c chunks ih =>
    simp only [feed, Except.bind_eq_ok_iff, Except.pure_eq_ok_iff] at h
    obtain ⟨⟨out₀, s₀⟩, hc, ⟨out₁, s₁⟩, hrest, heq⟩ := h
    cases heq
    simp [feed, hc, ih hrest]

end Feed

namespace Pipeline

variable {codec : Codec} {cek : Vector UInt8 cekLen} {nonce : Vector UInt8 nonceLen}
  {s s' : Pipeline codec}

/-- The encryptor has been fed with `blocks` under a key and an IV. -/
def Encrypted (cek : Vector UInt8 cekLen) (nonce : Vector UInt8 nonceLen) (s : Pipeline codec)
    (blocks : List Bytes) : Prop :=
  ∃ start, codec.encryptStream cek nonce = .ok start ∧
    feed codec.update start blocks = .ok (s.cipher, s.enc)

/-- The compressor has been fed with the plaintext so far, and the encryptor with its output. -/
def Fed (cek : Vector UInt8 cekLen) (nonce : Vector UInt8 nonceLen) (s : Pipeline codec) : Prop :=
  s.size = s.plain.length ∧ ∃ zstart chunks blocks,
    codec.compressStream zstdLevel = .ok zstart ∧
      feed codec.write zstart chunks = .ok (blocks.flatten, s.zenc) ∧ chunks.flatten = s.plain ∧
      s.Encrypted cek nonce blocks

theorem fed_start (h : start codec cek nonce = .ok s) : s.Fed cek nonce := by
  simp only [start, Except.bind_eq_ok_iff, Except.mapError_eq_ok_iff, Except.pure_eq_ok_iff] at h
  obtain ⟨enc, henc, zenc, hzenc, rfl⟩ := h
  exact ⟨rfl, zenc, [], [], hzenc, rfl, rfl, enc, henc, rfl⟩

/-- A pipeline starts with neither plaintext nor ciphertext. -/
theorem empty_of_start (h : start codec cek nonce = .ok s) : s.plain = [] ∧ s.cipher = [] := by
  simp only [start, Except.bind_eq_ok_iff, Except.pure_eq_ok_iff] at h
  obtain ⟨_, -, _, -, rfl⟩ := h
  exact ⟨rfl, rfl⟩

/-- Encrypting changes the encryptor and the ciphertext only, and feeds it with the given bytes. -/
theorem Encrypted.encrypt {blocks : List Bytes} {compressed : Bytes} {out : Option Bytes}
    (h : s.Encrypted cek nonce blocks) (hstep : s.encrypt compressed = .ok (out, s')) :
    s'.zenc = s.zenc ∧ s'.plain = s.plain ∧ s'.size = s.size ∧
      s'.cipher = s.cipher ++ out.getD [] ∧
      ∃ blocks', blocks'.flatten = blocks.flatten ++ compressed ∧
        s'.Encrypted cek nonce blocks' := by
  unfold Pipeline.encrypt at hstep
  split at hstep
  · rename_i hempty
    cases hstep
    -- zstd held everything back, so there is nothing to encrypt.
    rw [List.isEmpty_iff.mp hempty]
    exact ⟨rfl, rfl, rfl, by simp, blocks, by simp, h⟩
  · simp only [Except.bind_eq_ok_iff, Except.mapError_eq_ok_iff, Except.pure_eq_ok_iff] at hstep
    obtain ⟨⟨ct, enc⟩, hupdate, heq⟩ := hstep
    cases heq
    obtain ⟨start, hstart, hfeed⟩ := h
    exact ⟨rfl, rfl, rfl, rfl, blocks ++ [compressed], by simp, start, hstart,
      feed_append hfeed hupdate⟩

theorem Fed.absorb {chunk : Except String Bytes} {out : Option Bytes} (h : s.Fed cek nonce)
    (hstep : s.absorb chunk = .ok (out, s')) :
    s'.Fed cek nonce ∧ s'.cipher = s.cipher ++ out.getD [] := by
  simp only [Pipeline.absorb, Except.bind_eq_ok_iff, Except.mapError_eq_ok_iff] at hstep
  obtain ⟨bytes, -, ⟨compressed, zenc⟩, hwrite, hencrypt⟩ := hstep
  obtain ⟨hsize, zstart, chunks, blocks, hzstart, hfeed, hplain, hblocks⟩ := h
  -- What the compressor emitted does not concern the encryptor yet.
  have hblocks₀ : Encrypted cek nonce { s with
      zenc := zenc, plain := s.plain ++ bytes, size := s.size + bytes.length } blocks := hblocks
  obtain ⟨hzenc', hplain', hsize', hcipher', blocks', hflatten, hblocks'⟩ :=
    hblocks₀.encrypt hencrypt
  refine ⟨⟨?_, zstart, chunks ++ [bytes], blocks', hzstart, ?_, ?_, hblocks'⟩, hcipher'⟩
  · rw [hsize', hplain', List.length_append, hsize]
  · rw [hzenc', hflatten]
    exact feed_append hfeed hwrite
  · rw [hplain', List.flatten_append, hplain, List.flatten_singleton]

theorem Fed.cipher_drain {out : Option Bytes} (h : s.Fed cek nonce)
    (hstep : s.drain = .ok (out, s')) : s'.cipher = s.cipher ++ out.getD [] := by
  simp only [Pipeline.drain, Except.bind_eq_ok_iff] at hstep
  obtain ⟨tail, -, hencrypt⟩ := hstep
  obtain ⟨_, _, _, _, _, _, _, hblocks⟩ := h
  exact (hblocks.encrypt hencrypt).2.2.2.1

theorem Fed.absorbAll {body : List (Except String Bytes)} (h : s.Fed cek nonce)
    (hstep : s.absorbAll body = .ok s') : s'.Fed cek nonce := by
  induction body generalizing s with
  | nil =>
    cases hstep
    exact h
  | cons chunk body ih =>
    simp only [Pipeline.absorbAll, Except.bind_eq_ok_iff] at hstep
    obtain ⟨⟨out, t⟩, habsorb, hrest⟩ := hstep
    exact ih (h.absorb habsorb).1 hrest

end Pipeline

/-- An upload makes at most one artifact. -/
theorem Upload.Makes.unique {codec : Codec} {up : Upload} {cek cek' : Vector UInt8 cekLen}
    {nonce nonce' : Vector UInt8 nonceLen} {a a' : Sealed} (h : up.Makes codec cek nonce a)
    (h' : up.Makes codec cek' nonce' a') : a = a' := by
  obtain ⟨hrandom, s, hstart, hseal⟩ := h
  obtain ⟨hrandom', s', hstart', hseal'⟩ := h'
  cases hrandom.symm.trans hrandom'
  cases hstart.symm.trans hstart'
  cases hseal.symm.trans hseal'
  rfl

/-- The artifact of an upload decrypts under its key and decompresses to its plaintext. -/
theorem Upload.Makes.decodes {codec : Codec} {up : Upload} {cek : Vector UInt8 cekLen}
    {nonce : Vector UInt8 nonceLen} {a : Sealed} (h : up.Makes codec cek nonce a) :
    a.size = a.plain.length ∧
      ∃ z, codec.decrypt cek nonce a.cipher = some z ∧ codec.decompress z = some a.plain := by
  obtain ⟨-, s, hstart, hseal⟩ := h
  simp only [Pipeline.sealAll, Pipeline.drain, Pipeline.tag, Except.bind_eq_ok_iff,
    Except.mapError_eq_ok_iff, Except.pure_eq_ok_iff] at hseal
  obtain ⟨t, hbody, ⟨out, u⟩, ⟨tail, htail, hencrypt⟩, tag, htag, rfl⟩ := hseal
  obtain ⟨hsize, zstart, chunks, blocks, hzstart, hfeed, hplain, hblocks⟩ :=
    (Pipeline.fed_start hstart).absorbAll hbody
  -- The rest of the frame is one more block for the encryptor, and the tag follows it.
  obtain ⟨-, hplain', hsize', -, blocks', hflatten, start, hstart', hfeed'⟩ :=
    hblocks.encrypt hencrypt
  refine ⟨by rw [hsize', hplain', hsize], blocks'.flatten, ?_, ?_⟩
  · exact codec.decrypt_encrypt hstart' hfeed' htag
  · rw [hflatten, hplain', ← hplain]
    exact codec.decompress_compress hzstart hfeed htail

/-! ## A codec by its keystreams

An instance of `Codec` that computes: zstd with one raw block, and AES-GCM by the keystream and the
tag of each key and IV.
-/

/-- Mask bytes with the keystream from a position on. -/
def mask (keystream : Bytes) (pos : ℕ) (bytes : Bytes) : Bytes :=
  bytes.mapIdx fun j b => b ^^^ keystream.getD (pos + j) 0

theorem mask_append (keystream : Bytes) (pos : ℕ) (bytes more : Bytes) :
    mask keystream pos (bytes ++ more) =
      mask keystream pos bytes ++ mask keystream (pos + bytes.length) more := by
  simp only [mask, List.mapIdx_append]
  congr 2
  funext j b
  rw [Nat.add_comm j, Nat.add_assoc]

theorem mask_mask (keystream : Bytes) (pos : ℕ) (bytes : Bytes) :
    mask keystream pos (mask keystream pos bytes) = bytes := by
  -- Masking twice with the same byte gives the byte back.
  refine List.ext_getElem (by simp [mask]) fun j _ _ => ?_
  simp only [mask, List.getElem_mapIdx, UInt8.xor_assoc, UInt8.xor_self, UInt8.xor_zero]

/-- A zstd frame of one raw block, as an encoder without a known content size writes it. -/
def rawFrame (bytes : Bytes) : Bytes :=
  let header := 8 * bytes.length + 1
  [0x28, 0xb5, 0x2f, 0xfd, 0x00, 0x58, .ofNat header, .ofNat (header / 256),
    .ofNat (header / 65536)] ++ bytes

section Keystream

variable (keystream : Vector UInt8 cekLen → Vector UInt8 nonceLen → Bytes)
  (tag : Vector UInt8 cekLen → Vector UInt8 nonceLen → Vector UInt8 16)

/-- One update of the stream cipher: mask the chunk and advance. -/
def maskUpdate (s : (Vector UInt8 cekLen × Vector UInt8 nonceLen) × ℕ) (chunk : Bytes) :
    Except String (Bytes × (Vector UInt8 cekLen × Vector UInt8 nonceLen) × ℕ) :=
  .ok (mask (keystream s.1.1 s.1.2) s.2 chunk, s.1, s.2 + chunk.length)

theorem feed_maskUpdate (s : (Vector UInt8 cekLen × Vector UInt8 nonceLen) × ℕ)
    (chunks : List Bytes) :
    feed (maskUpdate keystream) s chunks =
      .ok (mask (keystream s.1.1 s.1.2) s.2 chunks.flatten, s.1, s.2 + chunks.flatten.length) := by
  induction chunks generalizing s with
  | nil => rfl
  | cons chunk chunks ih =>
    simp [feed, maskUpdate, ih, mask_append, pure, Except.pure, Nat.add_assoc]

/-- Hold everything back until the end of the frame. -/
theorem feed_append_held (held : Bytes) (chunks : List Bytes) :
    feed (fun held chunk => .ok ([], held ++ chunk)) held chunks =
      .ok ([], held ++ chunks.flatten) := by
  induction chunks generalizing held with
  | nil => simp [feed]
  | cons chunk chunks ih => simp [feed, ih, pure, Except.pure]

/-- The codec with these keystreams and tags. -/
def Codec.ofKeystream : Codec where
  Aead := (Vector UInt8 cekLen × Vector UInt8 nonceLen) × ℕ
  Zstd := Bytes
  encryptStream cek nonce := .ok ((cek, nonce), 0)
  update := maskUpdate keystream
  finalize s := .ok (tag s.1.1 s.1.2).toList
  decrypt cek nonce bytes := some (mask (keystream cek nonce) 0 (bytes.take (bytes.length - 16)))
  compressStream _ := .ok []
  write held chunk := .ok ([], held ++ chunk)
  finish held := .ok (rawFrame held)
  decompress bytes := some (bytes.drop 9)
  decrypt_encrypt := by
    intro cek nonce start chunks out last t hstart hfeed ht
    cases hstart
    cases (feed_maskUpdate keystream _ chunks).symm.trans hfeed
    cases ht
    simp [mask_mask]
  decompress_compress := by
    intro level start chunks out last rest hstart hfeed hrest
    cases hstart
    cases (feed_append_held [] chunks).symm.trans hfeed
    cases hrest
    rfl

end Keystream

/-! ### Two uploads of one plaintext -/

/-- Keys `01…01` and `02…02` with their keystreams and the tags of the frame of `abc`. -/
def sampleCodec : Codec :=
  .ofKeystream
    (fun cek _ =>
      if cek = Vector.replicate 16 1 then [183, 39, 161, 24, 224, 97, 134, 169, 84, 84, 61, 154]
      else if cek = Vector.replicate 16 2 then
        [213, 5, 147, 148, 145, 120, 174, 198, 251, 14, 235, 112]
      else [])
    (fun cek _ =>
      if cek = Vector.replicate 16 1 then
        #v[78, 37, 62, 105, 166, 57, 201, 64, 62, 145, 95, 169, 202, 31, 96, 190]
      else if cek = Vector.replicate 16 2 then
        #v[84, 141, 13, 100, 249, 67, 32, 146, 209, 46, 247, 71, 101, 161, 152, 122]
      else Vector.replicate 16 0)

/-- The bytes `abc`, uploaded under the two keys. -/
def sampleUploads : Bool → Upload
  | false => ⟨.ok (Vector.replicate 16 1, Vector.replicate 12 1), [.ok [97, 98, 99]]⟩
  | true => ⟨.ok (Vector.replicate 16 2, Vector.replicate 12 2), [.ok [97, 98, 99]]⟩

/-- The ciphertexts of the two uploads. -/
def sampleCipher : Bool → Bytes
  | false => [159, 146, 142, 229, 224, 57, 159, 169, 84, 53, 95, 249, 78, 37, 62, 105, 166, 57,
      201, 64, 62, 145, 95, 169, 202, 31, 96, 190]
  | true => [253, 176, 188, 105, 145, 32, 183, 198, 251, 111, 137, 19, 84, 141, 13, 100, 249, 67,
      32, 146, 209, 46, 247, 71, 101, 161, 152, 122]

/-- The digest of `abc`. -/
def sampleInner : ContentHash :=
  ⟨#v[186, 120, 22, 191, 143, 1, 207, 234, 65, 65, 64, 222, 93, 174, 34, 35, 176, 3, 97, 163, 150,
    23, 122, 156, 180, 16, 255, 97, 242, 0, 21, 173]⟩

/-- The digests of the ciphertexts. -/
def sampleOuter : Bool → ContentHash
  | false => ⟨#v[244, 73, 172, 111, 57, 232, 243, 157, 170, 182, 249, 144, 179, 116, 184, 13, 219,
      18, 92, 188, 146, 208, 73, 95, 153, 4, 13, 167, 29, 95, 131, 255]⟩
  | true => ⟨#v[200, 117, 23, 51, 117, 170, 101, 51, 41, 3, 82, 88, 65, 108, 86, 222, 104, 36, 50,
      77, 16, 136, 141, 33, 160, 140, 229, 70, 245, 151, 98, 161]⟩

/-- SHA-256 of the plaintext and the ciphertexts. -/
def sampleSha : Sha256 := fun bytes =>
  if bytes.data.toList = [97, 98, 99] then sampleInner
  else if bytes.data.toList = sampleCipher false then sampleOuter false
  else if bytes.data.toList = sampleCipher true then sampleOuter true
  else ⟨Vector.replicate 32 0⟩

end SoftwareTower
