import Mathlib.Data.List.Basic
import Mathlib.Data.String.Basic
import Mathlib.Order.Basic
import Mathlib.Tactic.IntervalCases

/-!
# Content addresses

`wire::ContentHash`, the SHA-256 content address by which everything is stored and referenced, with
its text form `sha256:<hex>`.

The digest itself comes from the `sha2` crate and is a parameter `sha : Sha256` of the development.
Statements that rest on its collision resistance assume `CollisionFreeAt sha x` for the finitely
many inputs `x` they are about: a digest of 32 bytes is never injective on all byte strings.

The text form has a fixed length and contains neither a newline nor a NUL (`toPrefixed_length`,
`newline_notMem_toPrefixed`, `nul_notMem_toPrefixed`), and parsing it gives the hash back
(`fromStr_toPrefixed`). `fromStr_exact` says what else parses, and to which canonical form: 64
digits of either case, bare or behind one scheme.
-/

namespace Wire

/-! ## Hexadecimal text -/

namespace Hex

/-- The lower-case digit of a nibble, as `hex::encode` writes it. -/
def digit (n : ℕ) : Char :=
  if n < 10 then Char.ofNat (48 + n) else Char.ofNat (87 + n)

/-- `hex::encode`: two digits a byte, the high nibble first. -/
def encode (bytes : List UInt8) : List Char :=
  bytes.flatMap fun b => [digit (b.toNat / 16), digit (b.toNat % 16)]

/-- The value of a hexadecimal digit of either case. -/
def value? (c : Char) : Option ℕ :=
  if '0' ≤ c ∧ c ≤ '9' then some (c.toNat - 48)
  else if 'a' ≤ c ∧ c ≤ 'f' then some (c.toNat - 87)
  else if 'A' ≤ c ∧ c ≤ 'F' then some (c.toNat - 55)
  else none

/-- `hex::decode`: fails on an odd number of characters and on a character that is no digit. -/
def decode : List Char → Option (List UInt8)
  | [] => some []
  | [_] => none
  | hi :: lo :: rest => do
    let h ← value? hi
    let l ← value? lo
    let bytes ← decode rest
    return UInt8.ofNat (16 * h + l) :: bytes

@[simp] theorem encode_nil : encode [] = [] := rfl

@[simp] theorem encode_cons (b : UInt8) (bytes : List UInt8) :
    encode (b :: bytes) = digit (b.toNat / 16) :: digit (b.toNat % 16) :: encode bytes := rfl

theorem length_encode (bytes : List UInt8) : (encode bytes).length = 2 * bytes.length := by
  induction bytes with
  | nil => rfl
  | cons b bytes ih => simp only [encode_cons, List.length_cons, ih]; omega

theorem value?_digit : ∀ n < 16, value? (digit n) = some n := by decide

/-- Decoding reads back what encoding wrote. -/
theorem decode_encode (bytes : List UInt8) : decode (encode bytes) = some bytes := by
  induction bytes with
  | nil => rfl
  | cons b bytes ih =>
    have hb : b.toNat < 256 := b.toNat_lt
    -- A byte is put together again from its two nibbles.
    have hi : value? (digit (b.toNat / 16)) = some (b.toNat / 16) := value?_digit _ (by omega)
    have lo : value? (digit (b.toNat % 16)) = some (b.toNat % 16) := value?_digit _ (by omega)
    have hbyte : UInt8.ofNat (16 * (b.toNat / 16) + b.toNat % 16) = b := by
      rw [Nat.div_add_mod, UInt8.ofNat_toNat]
    simp only [encode_cons, decode, hi, lo, ih, Option.bind_eq_bind, Option.bind_some, hbyte]
    rfl

/-- Every character that encoding writes is a digit. -/
theorem exists_digit_of_mem_encode {c : Char} {bytes : List UInt8} (h : c ∈ encode bytes) :
    ∃ n < 16, c = digit n := by
  rw [encode, List.mem_flatMap] at h
  obtain ⟨b, -, hc⟩ := h
  have hb : b.toNat < 256 := b.toNat_lt
  rcases List.mem_pair.mp hc with rfl | rfl
  · exact ⟨_, by omega, rfl⟩
  · exact ⟨_, by omega, rfl⟩

theorem notMem_encode {c : Char} (hc : ∀ n < 16, c ≠ digit n) (bytes : List UInt8) :
    c ∉ encode bytes := by
  intro h
  obtain ⟨n, hn, rfl⟩ := exists_digit_of_mem_encode h
  exact hc n hn rfl

/-! ### What decoding accepts -/

/-- A hexadecimal digit of either case. -/
def IsDigit (c : Char) : Prop :=
  ('0' ≤ c ∧ c ≤ '9') ∨ ('a' ≤ c ∧ c ≤ 'f') ∨ ('A' ≤ c ∧ c ≤ 'F')

instance (c : Char) : Decidable (IsDigit c) := by
  unfold IsDigit
  infer_instance

theorem isDigit_of_value? {c : Char} {n : ℕ} (h : value? c = some n) : IsDigit c := by
  unfold value? at h
  split_ifs at h with hdecimal hlower hupper
  · exact .inl hdecimal
  · exact .inr (.inl hlower)
  · exact .inr (.inr hupper)

/-- A character of a range is the one at some code point between its ends. -/
theorem exists_ofNat_of_mem_range {lo hi c : Char} (h : lo ≤ c ∧ c ≤ hi) :
    ∃ n, lo.toNat ≤ n ∧ n ≤ hi.toNat ∧ c = Char.ofNat n :=
  ⟨c.toNat, h.1, h.2, (Char.ofNat_toNat c).symm⟩

/-- A digit has a value below sixteen, and the digit written for that is the lower-case one. -/
theorem IsDigit.exists_value {c : Char} (h : IsDigit c) :
    ∃ n < 16, value? c = some n ∧ digit n = c.toLower := by
  rcases h with h | h | h
  all_goals
    obtain ⟨n, hlo, hhi, rfl⟩ := exists_ofNat_of_mem_range h
    simp only [Char.reduceToNat] at hlo hhi
    interval_cases n <;> decide

/-- Two digits decode to a byte, which encoding writes as the same digits in lower case. -/
theorem exists_byte {hi lo : Char} (hhi : IsDigit hi) (hlo : IsDigit lo) :
    ∃ b, (∀ rest, decode (hi :: lo :: rest) = (decode rest).map (b :: ·)) ∧
      encode [b] = [hi.toLower, lo.toLower] := by
  obtain ⟨n, hn, hvalue, hdigit⟩ := hhi.exists_value
  obtain ⟨m, hm, hvalue', hdigit'⟩ := hlo.exists_value
  have hbyte : (UInt8.ofNat (16 * n + m)).toNat = 16 * n + m := by
    rw [UInt8.toNat_ofNat']
    omega
  refine ⟨UInt8.ofNat (16 * n + m), fun rest => ?_, ?_⟩
  · simp only [decode, hvalue, hvalue', Option.bind_eq_bind, Option.bind_some]
    cases decode rest <;> rfl
  · have hhigh : (16 * n + m) / 16 = n := by omega
    have hlow : (16 * n + m) % 16 = m := by omega
    rw [encode_cons, encode_nil, hbyte, hhigh, hlow, hdigit, hdigit']

/-- `hex::decode` accepts an even number of digits. -/
theorem exists_decode {cs : List Char} (hdigits : ∀ c ∈ cs, IsDigit c)
    (hlen : cs.length % 2 = 0) : ∃ bytes, decode cs = some bytes := by
  induction cs using decode.induct with
  | case1 => exact ⟨[], rfl⟩
  | case2 c => simp at hlen
  | case3 hi lo rest ih =>
    simp only [List.mem_cons, forall_eq_or_imp] at hdigits
    obtain ⟨hhi, hlo, hrest⟩ := hdigits
    obtain ⟨b, hdecode, -⟩ := exists_byte hhi hlo
    obtain ⟨bytes, hbytes⟩ := ih hrest (by simp only [List.length_cons] at hlen; omega)
    exact ⟨b :: bytes, by rw [hdecode, hbytes, Option.map_some]⟩

/-- Nothing but digits is accepted, and encoding the bytes writes these digits in lower case. -/
theorem encode_of_decode {cs : List Char} {bytes : List UInt8} (h : decode cs = some bytes) :
    (∀ c ∈ cs, IsDigit c) ∧ encode bytes = cs.map Char.toLower := by
  induction cs using decode.induct generalizing bytes with
  | case1 => simp_all [decode]
  | case2 c => simp [decode] at h
  | case3 hi lo rest ih =>
    have hpair : IsDigit hi ∧ IsDigit lo := by
      simp only [decode, Option.bind_eq_bind, Option.bind_eq_some_iff] at h
      obtain ⟨n, hn, m, hm, -⟩ := h
      exact ⟨isDigit_of_value? hn, isDigit_of_value? hm⟩
    obtain ⟨b, hdecode, hencode⟩ := exists_byte hpair.1 hpair.2
    rw [hdecode, Option.map_eq_some_iff] at h
    obtain ⟨tail, htail, rfl⟩ := h
    obtain ⟨hdigits, hlower⟩ := ih htail
    refine ⟨?_, ?_⟩
    · simp only [List.mem_cons, forall_eq_or_imp]
      exact ⟨hpair.1, hpair.2, hdigits⟩
    · calc
        encode (b :: tail) = encode [b] ++ encode tail := rfl
        _ = (hi :: lo :: rest).map Char.toLower := by rw [hencode, hlower]; rfl

end Hex

/-! ## Content hashes -/

/-- A SHA-256 content address: 32 raw bytes. -/
structure ContentHash where
  /-- The raw digest. -/
  bytes : Vector UInt8 32
  deriving DecidableEq

/-- Error parsing a `ContentHash` from text. -/
inductive ParseHashError where
  | notHex
  | wrongLength
  deriving DecidableEq, Repr

namespace ContentHash

/-- The scheme that `toPrefixed` writes in front of the digits. -/
def scheme : String := "sha256:"

/-- Render as `sha256:<hex>`, the canonical form on the wire and in URLs. -/
def toPrefixed (h : ContentHash) : String :=
  scheme ++ String.ofList (Hex.encode h.bytes.toList)

/-- Accepts either `sha256:<hex>` or the bare digits. -/
def fromStr (s : String) : Except ParseHashError ContentHash :=
  -- `s.strip_prefix("sha256:").unwrap_or(s)`.
  let hexPart := (scheme.toList.isPrefixOf? s.toList).getD s.toList
  match Hex.decode hexPart with
  | none => .error .notHex
  | some bytes =>
    if h : bytes.length = 32 then .ok ⟨⟨bytes.toArray, by simpa using h⟩⟩
    else .error .wrongLength

/-- The hash with the given digest, if that has 32 bytes. -/
def ofBytes? (bytes : List UInt8) : Option ContentHash :=
  if h : bytes.length = 32 then some ⟨⟨bytes.toArray, by simpa using h⟩⟩ else none

@[simp] theorem ofBytes?_toList (h : ContentHash) : ofBytes? h.bytes.toList = some h := by
  have hlen : h.bytes.toList.length = 32 := by simp
  rw [ofBytes?, dif_pos hlen]
  rfl

theorem ofBytes?_eq_some_iff {bytes : List UInt8} {h : ContentHash} :
    ofBytes? bytes = some h ↔ bytes = h.bytes.toList := by
  constructor
  · intro hbytes
    rw [ofBytes?] at hbytes
    split at hbytes
    next => rw [← Option.some.inj hbytes]; rfl
    next => cases hbytes
  · rintro rfl
    exact ofBytes?_toList h

theorem isSome_ofBytes?_iff {bytes : List UInt8} :
    (ofBytes? bytes).isSome = true ↔ bytes.length = 32 := by
  rw [ofBytes?]
  split
  next h => simp [h]
  next h => simp [h]

theorem toList_toPrefixed (h : ContentHash) :
    h.toPrefixed.toList = scheme.toList ++ Hex.encode h.bytes.toList := by
  simp [toPrefixed]

/-- Parsing the canonical form gives the hash back. -/
theorem fromStr_toPrefixed (h : ContentHash) : fromStr h.toPrefixed = .ok h := by
  have hstrip : scheme.toList.isPrefixOf? h.toPrefixed.toList
      = some (Hex.encode h.bytes.toList) := by
    rw [toList_toPrefixed, List.isPrefixOf?_eq_some_iff_append_eq]
  have hlen : h.bytes.toList.length = 32 := by simp
  simp only [fromStr, hstrip, Option.getD_some, Hex.decode_encode, hlen, ↓reduceDIte]
  rfl

theorem toPrefixed_injective : Function.Injective toPrefixed := by
  intro h h' heq
  have hok : (Except.ok h : Except ParseHashError ContentHash) = .ok h' := by
    rw [← fromStr_toPrefixed, heq, fromStr_toPrefixed]
  exact Except.ok.inj hok

@[simp] theorem toPrefixed_inj {h h' : ContentHash} : h.toPrefixed = h'.toPrefixed ↔ h = h' :=
  toPrefixed_injective.eq_iff

/-- The canonical form is 71 characters long. -/
theorem toPrefixed_length (h : ContentHash) : h.toPrefixed.toList.length = 71 := by
  rw [toList_toPrefixed, List.length_append, Hex.length_encode]
  simp [scheme]

theorem newline_notMem_toPrefixed (h : ContentHash) : '\n' ∉ h.toPrefixed.toList := by
  rw [toList_toPrefixed, List.mem_append, not_or]
  exact ⟨by decide, Hex.notMem_encode (by decide) _⟩

theorem nul_notMem_toPrefixed (h : ContentHash) : '\x00' ∉ h.toPrefixed.toList := by
  rw [toList_toPrefixed, List.mem_append, not_or]
  exact ⟨by decide, Hex.notMem_encode (by decide) _⟩

/-! ### The accepted spellings -/

/-- The digits alone, without the scheme. -/
def toBare (h : ContentHash) : String := String.ofList (Hex.encode h.bytes.toList)

/-- `s` spells a hash by these digits: 64 of either case, bare or behind one `sha256:`. -/
structure Spells (s : String) (digits : List Char) : Prop where
  length_eq : digits.length = 64
  isDigit : ∀ c ∈ digits, Hex.IsDigit c
  text : s.toList = digits ∨ s.toList = scheme.toList ++ digits

/-- What parsing decodes: the text without a leading `sha256:`. -/
def hexPart (s : String) : List Char :=
  (scheme.toList.isPrefixOf? s.toList).getD s.toList

theorem bytes_toList_inj {h h' : ContentHash} : h.bytes.toList = h'.bytes.toList ↔ h = h' := by
  rw [Vector.toList_inj, ContentHash.mk.injEq]

/-- Parsing succeeds with the hash whose digest the digits decode to. -/
theorem fromStr_eq_ok_iff {s : String} {h : ContentHash} :
    fromStr s = .ok h ↔ Hex.decode (hexPart s) = some h.bytes.toList := by
  cases hdecode : Hex.decode (hexPart s) with
  | none =>
    rw [hexPart] at hdecode
    simp [fromStr, hdecode]
  | some bytes =>
    rw [hexPart] at hdecode
    simp only [fromStr, hdecode, Option.some.injEq]
    constructor
    · intro h
      split_ifs at h with hlen
      cases h
      rfl
    · rintro rfl
      have hlen : h.bytes.toList.length = 32 := by simp
      exact dif_pos hlen

/-- A text of digits carries no scheme, so at most one is taken off. -/
theorem hexPart_eq_iff {s : String} {digits : List Char} (hdigits : ∀ c ∈ digits, Hex.IsDigit c) :
    hexPart s = digits ↔ s.toList = digits ∨ s.toList = scheme.toList ++ digits := by
  rw [hexPart]
  cases hstrip : scheme.toList.isPrefixOf? s.toList with
  | none =>
    have hne : s.toList ≠ scheme.toList ++ digits := fun h => by
      rw [List.isPrefixOf?_eq_some_iff_append_eq.mpr h.symm] at hstrip
      cases hstrip
    simp [hne]
  | some rest =>
    have htext : scheme.toList ++ rest = s.toList :=
      List.isPrefixOf?_eq_some_iff_append_eq.mp hstrip
    have hne : s.toList ≠ digits := by
      rintro rfl
      have hmem : 's' ∈ s.toList := by
        rw [← htext]
        exact List.mem_append_left _ (by decide)
      exact absurd (hdigits 's' hmem) (by decide)
    rw [← htext] at hne ⊢
    simp [hne]

theorem Spells.hexPart_eq {s : String} {digits : List Char} (hs : Spells s digits) :
    hexPart s = digits :=
  (hexPart_eq_iff hs.isDigit).mpr hs.text

/-- What parses spells the hash by what is left behind the scheme. -/
theorem spells_of_fromStr {s : String} {h : ContentHash} (hs : fromStr s = .ok h) :
    Spells s (hexPart s) := by
  obtain ⟨hdigits, hlower⟩ := Hex.encode_of_decode (fromStr_eq_ok_iff.mp hs)
  have hlen := congrArg List.length hlower
  rw [Hex.length_encode, List.length_map, Vector.length_toList] at hlen
  exact ⟨hlen.symm, hdigits, (hexPart_eq_iff hdigits).mp rfl⟩

theorem Spells.exists_fromStr {s : String} {digits : List Char} (hs : Spells s digits) :
    ∃ h, fromStr s = .ok h := by
  have hlen : digits.length % 2 = 0 := by rw [hs.length_eq]
  obtain ⟨bytes, hbytes⟩ := Hex.exists_decode hs.isDigit hlen
  have hbytesLen := congrArg List.length (Hex.encode_of_decode hbytes).2
  rw [Hex.length_encode, List.length_map, hs.length_eq] at hbytesLen
  have hsome : (ofBytes? bytes).isSome = true := isSome_ofBytes?_iff.mpr (by omega)
  obtain ⟨h, hh⟩ := Option.isSome_iff_exists.mp hsome
  refine ⟨h, fromStr_eq_ok_iff.mpr ?_⟩
  rw [hs.hexPart_eq, hbytes, ofBytes?_eq_some_iff.mp hh]

/-- The hash that parsing gives has the bytes that the digits decode to. -/
theorem Spells.decode_eq {s : String} {digits : List Char} {h : ContentHash}
    (hs : Spells s digits) (hok : fromStr s = .ok h) :
    Hex.decode digits = some h.bytes.toList := by
  rw [← hs.hexPart_eq]
  exact fromStr_eq_ok_iff.mp hok

/-- The canonical form writes the spelled digits in lower case. -/
theorem Spells.toPrefixed_eq {s : String} {digits : List Char} {h : ContentHash}
    (hs : Spells s digits) (hok : fromStr s = .ok h) :
    h.toPrefixed = scheme ++ String.ofList (digits.map Char.toLower) := by
  rw [toPrefixed, (Hex.encode_of_decode (hs.decode_eq hok)).2]

theorem spells_toBare (h : ContentHash) : Spells h.toBare (Hex.encode h.bytes.toList) where
  length_eq := by rw [Hex.length_encode, Vector.length_toList]
  isDigit := (Hex.encode_of_decode (Hex.decode_encode _)).1
  text := .inl (by simp [toBare])

theorem fromStr_toBare (h : ContentHash) : fromStr h.toBare = .ok h := by
  rw [fromStr_eq_ok_iff, (spells_toBare h).hexPart_eq, Hex.decode_encode]

/-- The text form over every string: the accepted spellings are exactly 64 digits of either case,
bare or behind one scheme, both written forms of a hash parse to it, and the canonical form of what
parses is its digits in lower case, the same for two spellings exactly where these decode to the
same bytes. -/
theorem fromStr_exact :
    (∀ s, (∃ h, fromStr s = .ok h) ↔ ∃ digits, Spells s digits) ∧
    (∀ h : ContentHash, fromStr h.toPrefixed = .ok h ∧ fromStr h.toBare = .ok h) ∧
    (∀ s digits h, Spells s digits → fromStr s = .ok h →
      h.toPrefixed = scheme ++ String.ofList (digits.map Char.toLower)) ∧
    (∀ s s' digits digits' h h', Spells s digits → Spells s' digits' →
      fromStr s = .ok h → fromStr s' = .ok h' →
      (h.toPrefixed = h'.toPrefixed ↔ Hex.decode digits = Hex.decode digits')) := by
  refine ⟨fun s => ⟨?_, ?_⟩, fun h => ⟨fromStr_toPrefixed h, fromStr_toBare h⟩, ?_, ?_⟩
  · rintro ⟨h, hok⟩
    exact ⟨_, spells_of_fromStr hok⟩
  · rintro ⟨digits, hs⟩
    exact hs.exists_fromStr
  · intro s digits h hs hok
    exact hs.toPrefixed_eq hok
  · intro s s' digits digits' h h' hs hs' hok hok'
    rw [toPrefixed_inj, hs.decode_eq hok, hs'.decode_eq hok', Option.some.injEq]
    exact bytes_toList_inj.symm

/-- A bare upper-case spelling parses, and the canonical form writes it in lower case. -/
theorem fromStr_exact_upper_case :
    ∃ h, fromStr (String.ofList (List.replicate 64 'A')) = .ok h ∧
      h.toPrefixed = scheme ++ String.ofList (List.replicate 64 'a') := by
  have hs : Spells (String.ofList (List.replicate 64 'A')) (List.replicate 64 'A') :=
    { length_eq := List.length_replicate
      isDigit := fun c hc => by rw [List.eq_of_mem_replicate hc]; decide
      text := .inl (String.toList_ofList) }
  obtain ⟨h, hok⟩ := (fromStr_exact.1 _).mpr ⟨_, hs⟩
  exact ⟨h, hok, (fromStr_exact.2.2.1 _ _ h hs hok).trans (by rw [List.map_replicate]; rfl)⟩

end ContentHash

/-! ## The digest -/

/-- The bytes of files, messages and keys. -/
abbrev Bytes := List UInt8

/-- SHA-256 of a byte string, `ContentHash::of`. -/
abbrev Sha256 := ByteArray → ContentHash

/-- No byte string other than `x` has the digest of `x`. -/
def CollisionFreeAt (sha : Sha256) (x : ByteArray) : Prop :=
  ∀ y, sha y = sha x → y = x

/-- The content address of a text, `ContentHash::of(buf.as_bytes()).to_prefixed()`. -/
def hashText (sha : Sha256) (text : String) : String :=
  (sha text.toByteArray).toPrefixed

/-- Texts with one content address are equal where the digest is collision-free. -/
theorem eq_of_hashText_eq {sha : Sha256} {s t : String}
    (hsha : CollisionFreeAt sha s.toByteArray) (h : hashText sha t = hashText sha s) : t = s :=
  String.toByteArray_inj.mp (hsha _ (ContentHash.toPrefixed_injective h))

/-- A hash function by its known digests, all zeros elsewhere. -/
def Sha256.ofDigests (known : List (String × ContentHash)) : Sha256 := fun bytes =>
  ((known.find? fun d => d.1.toByteArray.data = bytes.data).map (·.2)).getD ⟨Vector.replicate 32 0⟩

/-- The first known text has no collision if its digest is neither zero nor another known digest. -/
theorem collisionFreeAt_ofDigests {text : String} {digest : ContentHash}
    {others : List (String × ContentHash)} (hzero : digest ≠ ⟨Vector.replicate 32 0⟩)
    (hothers : ∀ d ∈ others, d.2 ≠ digest) :
    CollisionFreeAt (Sha256.ofDigests ((text, digest) :: others)) text.toByteArray := by
  intro y hy
  by_contra hne
  have hself : Sha256.ofDigests ((text, digest) :: others) text.toByteArray = digest := by
    simp [Sha256.ofDigests]
  have hskip : Sha256.ofDigests ((text, digest) :: others) y = Sha256.ofDigests others y := by
    have hdata : text.toByteArray.data ≠ y.data := fun h => hne (ByteArray.ext h).symm
    simp [Sha256.ofDigests, hdata]
  rw [hself, hskip, Sha256.ofDigests] at hy
  -- Any other input has the zero digest or one of the other known ones.
  cases hfind : others.find? fun d => d.1.toByteArray.data = y.data with
  | none => exact hzero (by rw [← hy, hfind]; rfl)
  | some d => exact hothers d (List.mem_of_find?_eq_some hfind) (by rw [← hy, hfind]; rfl)

end Wire
