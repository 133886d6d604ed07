import SumoProvision.Foundations.Text
import Mathlib.Data.Multiset.ZeroCons

/-!
# Distinguished names as text

The string representation of X.500 distinguished names, RFC 4514: relative distinguished names are
separated by commas, the last one of the name first, the attributes of one of them by plus signs,
and the type of an attribute from its value by the first equals sign. A backslash escapes a special
character or stands before the two hexadecimal digits of an octet, and a value that begins with `#`
is the encoding of an ASN.1 value in hexadecimal.

`Reads` says which names a parser may take from a text. It is what parsers have in common that do
not agree on every text: a separator that no backslash stands before separates, and one behind a
backslash may, since the backslash can itself be escaped; an escape that the end of its value cuts
short stands for nothing where it is accepted; and a character that separates and escapes nothing
stands for itself, also where the grammar wants it escaped. `read` is a parser of this kind, which
counts backslashes (`reads_of_read`).

Such a parser takes `TYPE=TEXT` for one attribute with just this text exactly where the text needs
no escape: `Reads.exists_of_plain` and `Reads.plain`.
-/

namespace Rfc4514

/-- An ASN.1 value by its tag and its contents octets. -/
structure AttributeValue where
  tag : UInt8
  contents : List UInt8
  deriving DecidableEq

/-- An attribute of a relative distinguished name. -/
structure Attribute (Oid : Type) where
  type : Oid
  value : AttributeValue
  deriving DecidableEq

/-- A relative distinguished name, an ASN.1 `SET OF` attributes. -/
abbrev Rdn (Oid : Type) := Multiset (Attribute Oid)

/-- The relative distinguished names in the order of the encoded sequence. -/
abbrev Name (Oid : Type) := List (Rdn Oid)

/-! ## Escapes -/

/-- The characters that stand for themselves behind a backslash. -/
def special : List Char := "\"+,;<> #=\\".toList

/-- The value of a hexadecimal digit of either case. -/
def hexValue? (c : Char) : Option ℕ :=
  (List.range 16).find? fun n => n.digitChar = c.toLower

/-- The octet of two hexadecimal digits. -/
def hexpair (hi lo : Char) : Option UInt8 := do
  let h ← hexValue? hi
  let l ← hexValue? lo
  return UInt8.ofNat (16 * h + l)

/-- The octets that a text with escapes stands for. An escape that the end of the text cuts short
stands for none. -/
def unescape : List Char → Option (List UInt8)
  | [] => some []
  | c :: rest =>
    if c ≠ '\\' then (unescape rest).map (String.utf8EncodeChar c ++ ·)
    else match rest with
      | [] => some []
      | e :: rest =>
        if e ∈ special then (unescape rest).map (String.utf8EncodeChar e ++ ·)
        else match rest with
          | [] => (hexValue? e).map fun _ => []
          | lo :: rest => do
            let octet ← hexpair e lo
            let octets ← unescape rest
            return octet :: octets

theorem unescape_cons_of_ne {c : Char} (hc : c ≠ '\\') (rest : List Char) :
    unescape (c :: rest) = (unescape rest).map (String.utf8EncodeChar c ++ ·) := by
  rw [unescape.eq_def]
  exact if_pos hc

/-- A text without a backslash stands for itself. -/
theorem unescape_of_notMem {cs : List Char} (hcs : '\\' ∉ cs) :
    unescape cs = some (cs.flatMap String.utf8EncodeChar) := by
  induction cs with
  | nil => rfl
  | cons c cs ih =>
    rw [List.mem_cons, not_or] at hcs
    rw [unescape_cons_of_ne (Ne.symm hcs.1), ih hcs.2]
    rfl

theorem unescape_special {e : Char} (he : e ∈ special) (rest : List Char) :
    unescape ('\\' :: e :: rest) = (unescape rest).map (String.utf8EncodeChar e ++ ·) := by
  rw [unescape.eq_def]
  exact if_pos he

/-- Nothing but an octet follows a backslash that no special character follows. -/
theorem unescape_hexpair {e lo : Char} (he : e ∉ special) {rest : List Char} {octets : List UInt8}
    (h : unescape ('\\' :: e :: lo :: rest) = some octets) :
    ∃ octet octets', unescape rest = some octets' ∧ octets = octet :: octets' := by
  rw [unescape.eq_def] at h
  replace h := (if_neg he).symm.trans h
  simp only [Option.bind_eq_bind, Option.bind_eq_some_iff] at h
  obtain ⟨octet, -, octets', hoctets', heq⟩ := h
  exact ⟨octet, octets', hoctets', (Option.some.inj heq).symm⟩

/-- The number of octets of a text in UTF-8. -/
def size (cs : List Char) : ℕ := (cs.flatMap String.utf8EncodeChar).length

@[simp] theorem size_cons (c : Char) (cs : List Char) : size (c :: cs) = c.utf8Size + size cs := by
  rw [size, List.flatMap_cons, List.length_append, String.length_utf8EncodeChar, size]

theorem length_le_size (cs : List Char) : cs.length ≤ size cs := by
  induction cs with
  | nil => exact Nat.zero_le _
  | cons c cs ih =>
    have hpos := c.utf8Size_pos
    rw [List.length_cons, size_cons]
    omega

/-- An escape takes more room than what it stands for: a text stands for no more octets than it has,
and for fewer if there is a backslash in it. -/
theorem length_unescape {cs : List Char} {octets : List UInt8} (h : unescape cs = some octets) :
    octets.length ≤ size cs ∧ ('\\' ∈ cs → octets.length < size cs) := by
  -- One case for each branch of `unescape`: only a plain character stands for all of its octets.
  induction cs using unescape.induct generalizing octets with
  | case1 =>
    cases h
    simp
  | case2 c rest hc ih =>
    rw [unescape_cons_of_ne hc, Option.map_eq_some_iff] at h
    obtain ⟨octets', hoctets', rfl⟩ := h
    obtain ⟨hle, hlt⟩ := ih hoctets'
    simp only [List.length_append, String.length_utf8EncodeChar, size_cons, List.mem_cons,
      hc.symm, false_or]
    exact ⟨Nat.add_le_add_left hle _, fun hmem => Nat.add_lt_add_left (hlt hmem) _⟩
  | case3 c hc =>
    rw [not_not.mp hc] at h
    cases h
    have hpos := c.utf8Size_pos
    rw [size_cons, List.length_nil]
    omega
  | case4 c hc e rest he ih =>
    rw [not_not.mp hc, unescape_special he, Option.map_eq_some_iff] at h
    obtain ⟨octets', hoctets', rfl⟩ := h
    obtain ⟨hle, -⟩ := ih hoctets'
    have hpos := c.utf8Size_pos
    simp only [List.length_append, String.length_utf8EncodeChar, size_cons]
    omega
  | case5 c hc e he =>
    rw [not_not.mp hc, unescape.eq_def] at h
    replace h := (if_neg he).symm.trans h
    obtain ⟨n, -, rfl⟩ := Option.map_eq_some_iff.mp h
    have hpos := c.utf8Size_pos
    rw [size_cons, List.length_nil]
    omega
  | case6 c hc e he lo rest ih =>
    rw [not_not.mp hc] at h
    obtain ⟨octet, octets', hoctets', rfl⟩ := unescape_hexpair he h
    obtain ⟨hle, -⟩ := ih hoctets'
    have hpos := c.utf8Size_pos
    have hpos' := e.utf8Size_pos
    simp only [List.length_cons, size_cons]
    omega

/-! ## Values and types -/

/-- The octets of a sequence of hexadecimal digits. -/
def hexOctets : List Char → Option (List UInt8)
  | [] => some []
  | hi :: lo :: cs => do
    let octet ← hexpair hi lo
    let octets ← hexOctets cs
    return octet :: octets
  | [_] => none

/-- The ASN.1 value with this encoding, of a definite length and with a tag of one octet. -/
def decodeValue : List UInt8 → Option AttributeValue
  | tag :: len :: rest =>
    -- The long form writes the length in as many octets as the low seven bits say.
    let n := if len < 0x80 then 0 else len.toNat - 0x80
    let length := if len < 0x80 then len.toNat
      else (rest.take n).foldl (fun length octet => 256 * length + octet.toNat) 0
    if tag &&& 0x1f ≠ 0x1f ∧ len ≠ 0x80 ∧ rest.length = n + length then
      some ⟨tag, rest.drop n⟩
    else none
  | _ => none

/-- The value that the text behind the equals sign stands for. -/
def readValue (tag : UInt8) (cs : List Char) : Option AttributeValue :=
  if cs.head? = some '#' then (hexOctets cs.tail).bind decodeValue
  else (unescape cs).map fun contents => ⟨tag, contents⟩

theorem length_hexOctets {cs : List Char} {octets : List UInt8} (h : hexOctets cs = some octets) :
    cs.length = 2 * octets.length := by
  induction cs using hexOctets.induct generalizing octets with
  | case1 =>
    cases h
    rfl
  | case2 hi lo cs ih =>
    simp only [hexOctets, Option.bind_eq_bind, Option.bind_eq_some_iff] at h
    obtain ⟨octet, -, octets', hoctets, heq⟩ := h
    obtain rfl := Option.some.inj heq
    rw [List.length_cons, List.length_cons, List.length_cons, ih hoctets]
    omega
  | case3 c => cases h

/-- The tag and the length take two octets or more. -/
theorem length_decodeValue {octets : List UInt8} {value : AttributeValue}
    (h : decodeValue octets = some value) : value.contents.length + 2 ≤ octets.length := by
  unfold decodeValue at h
  split at h
  · dsimp only at h
    split_ifs at h with _ hok
    all_goals
      cases h
      simp
  · cases h

/-- The contents of an encoded value are shorter than its text. -/
theorem length_readValue_lt {tag : UInt8} {cs : List Char} {value : AttributeValue}
    (hsharp : cs.head? = some '#') (h : readValue tag cs = some value) :
    value.contents.length < cs.length := by
  rw [readValue, if_pos hsharp, Option.bind_eq_some_iff] at h
  obtain ⟨octets, hoctets, hvalue⟩ := h
  have hlen := length_hexOctets hoctets
  have hcontents := length_decodeValue hvalue
  rw [List.length_tail] at hlen
  omega

/-- A text is its own contents exactly where it needs no escape. -/
theorem readValue_eq_iff (tag tag' : UInt8) (cs : List Char) :
    readValue tag cs = some ⟨tag', cs.flatMap String.utf8EncodeChar⟩ ↔
      tag' = tag ∧ '\\' ∉ cs ∧ cs.head? ≠ some '#' := by
  constructor
  · intro h
    have hsharp : cs.head? ≠ some '#' := fun hsharp => by
      have hlt : size cs < cs.length := length_readValue_lt hsharp h
      exact absurd (length_le_size cs) (Nat.not_le.mpr hlt)
    rw [readValue, if_neg hsharp, Option.map_eq_some_iff] at h
    obtain ⟨contents, hcontents, heq⟩ := h
    obtain ⟨rfl, rfl⟩ := AttributeValue.mk.inj heq
    exact ⟨rfl, fun hmem => lt_irrefl _ ((length_unescape hcontents).2 hmem), hsharp⟩
  · rintro ⟨rfl, hbackslash, hsharp⟩
    rw [readValue, if_neg hsharp, unescape_of_notMem hbackslash, Option.map_some]

/-- Split at the first equals sign. Nothing is escaped in the name of a type. -/
def readType : List Char → Option (List Char × List Char)
  | [] => none
  | c :: cs =>
    if c = '=' then some ([], cs) else (readType cs).map fun (key, value) => (c :: key, value)

theorem readType_append {key : List Char} (hkey : '=' ∉ key) (value : List Char) :
    readType (key ++ '=' :: value) = some (key, value) := by
  induction key with
  | nil => rfl
  | cons c key ih =>
    rw [List.mem_cons, not_or] at hkey
    rw [List.cons_append, readType, if_neg (Ne.symm hkey.1), ih hkey.2]
    rfl

/-! ## Parts -/

/-- The parts of a text between its separators: whatever separator is left in a part stands directly
behind a backslash. -/
structure Parts (sep : Char) (cs : List Char) (parts : List (List Char)) : Prop where
  ne_nil : parts ≠ []
  join : [sep].intercalate parts = cs
  escaped : ∀ part ∈ parts, ∀ as bs, part = as ++ sep :: bs → as.getLast? = some '\\'

section Parts

variable {sep : Char} {cs part : List Char} {parts : List (List Char)}

theorem Parts.eq_of_singleton (h : Parts sep cs [part]) : part = cs :=
  List.intercalate_singleton.symm.trans h.join

/-- A text without a separator has one part. -/
theorem Parts.eq_singleton (h : Parts sep cs parts) (hsep : sep ∉ cs) : parts = [cs] := by
  match parts, h with
  | [], h => exact absurd rfl h.ne_nil
  | [part], h => rw [h.eq_of_singleton]
  | part :: part' :: parts, h =>
    rw [← h.join, List.intercalate_cons_cons] at hsep
    simp at hsep

/-- A text with one part has no separator, unless there is a backslash in it. -/
theorem Parts.notMem (h : Parts sep cs [part]) (hbackslash : '\\' ∉ cs) : sep ∉ cs := by
  obtain rfl := h.eq_of_singleton
  intro hsep
  obtain ⟨as, bs, hpart⟩ := List.append_of_mem hsep
  have hlast := h.escaped part List.mem_cons_self as bs hpart
  apply hbackslash
  rw [hpart]
  exact List.mem_append_left _ (List.mem_of_getLast? hlast)

theorem parts_singleton (h : ∀ as bs, part = as ++ sep :: bs → as.getLast? = some '\\') :
    Parts sep part [part] := by
  refine ⟨List.cons_ne_nil _ _, List.intercalate_singleton, fun p hp => ?_⟩
  rw [List.mem_singleton.mp hp]
  exact h

theorem Parts.cons (hpart : Parts sep part [part]) (h : Parts sep cs parts) :
    Parts sep (part ++ sep :: cs) (part :: parts) := by
  refine ⟨List.cons_ne_nil _ _, ?_, fun p hp => ?_⟩
  · rw [List.intercalate_cons_of_ne_nil h.ne_nil, h.join, List.append_assoc]
    rfl
  · rcases List.mem_cons.mp hp with rfl | hp
    · exact hpart.escaped p List.mem_cons_self
    · exact h.escaped p hp

/-- A separator that no backslash stands before separates. -/
theorem Parts.exists_append {as bs : List Char} (h : Parts sep (as ++ sep :: bs) parts)
    (has : as.getLast? ≠ some '\\') :
    ∃ ps qs, parts = ps ++ qs ∧ Parts sep as ps ∧ Parts sep bs qs := by
  induction parts generalizing as with
  | nil => exact absurd rfl h.ne_nil
  | cons part parts ih =>
    have hescaped := h.escaped part List.mem_cons_self
    have hpart := parts_singleton hescaped
    cases parts with
    | nil => exact absurd (hescaped as bs h.eq_of_singleton) has
    | cons part' parts =>
      have hrest : ∀ cs, [sep].intercalate (part' :: parts) = cs →
          Parts sep cs (part' :: parts) := fun cs hcs =>
        ⟨List.cons_ne_nil _ _, hcs, fun p hp => h.escaped p (List.mem_cons_of_mem _ hp)⟩
      have hjoin := h.join
      rw [List.intercalate_cons_cons, List.append_assoc, List.append_eq_append_iff] at hjoin
      rcases hjoin with ⟨cs, has', hcs⟩ | ⟨cs, hpart', hcs⟩
      · cases cs with
        | nil =>
          rw [List.append_nil] at has'
          exact ⟨[part], part' :: parts, rfl, has' ▸ hpart, hrest _ (List.cons.inj hcs).2⟩
        | cons c cs =>
          -- The separator comes after the one that ends the part.
          obtain ⟨rfl, htail⟩ := List.cons.inj hcs
          have hlast : cs.getLast? ≠ some '\\' := fun hlast => has <| by
            rw [has', List.getLast?_append, List.getLast?_cons, hlast]
            rfl
          obtain ⟨ps, qs, heq, hps, hqs⟩ := ih (hrest _ htail) hlast
          exact ⟨part :: ps, qs, by rw [heq, List.cons_append], has' ▸ hpart.cons hps, hqs⟩
      · cases cs with
        | nil =>
          rw [List.append_nil] at hpart'
          exact ⟨[part], part' :: parts, rfl, hpart' ▸ hpart, hrest _ (List.cons.inj hcs).2.symm⟩
        | cons c cs =>
          obtain ⟨rfl, -⟩ := List.cons.inj hcs
          exact absurd (hescaped as cs hpart') has

/-- Cut a text at the separators that are not escaped. -/
def cut (sep : Char) : List Char → List (List Char)
  | [] => [[]]
  | c :: rest =>
    if c = sep then [] :: cut sep rest
    else if c = '\\' then
      match rest with
      | [] => [[c]]
      | e :: rest => (cut sep rest).modifyHead (c :: e :: ·)
    else (cut sep rest).modifyHead (c :: ·)

/-- Characters before the first part, where the separators among them are escaped. -/
theorem Parts.modifyHead (h : Parts sep cs parts) (pre : List Char)
    (hpre : ∀ as bs, pre = as ++ sep :: bs → as.getLast? = some '\\') :
    Parts sep (pre ++ cs) (parts.modifyHead (pre ++ ·)) := by
  cases parts with
  | nil => exact absurd rfl h.ne_nil
  | cons part parts =>
    rw [List.modifyHead_cons]
    refine ⟨List.cons_ne_nil _ _, ?_, fun p hp as bs hsplit => ?_⟩
    · rw [← h.join]
      cases parts with
      | nil => rw [List.intercalate_singleton, List.intercalate_singleton]
      | cons part' parts =>
        simp only [List.intercalate_cons_cons, List.append_assoc]
    rcases List.mem_cons.mp hp with rfl | hp
    swap
    · exact h.escaped p (List.mem_cons_of_mem _ hp) as bs hsplit
    rcases List.append_eq_append_iff.mp hsplit with ⟨cs, rfl, hcs⟩ | ⟨cs, hcs, hrest⟩
    · -- The separator is in the part, behind a backslash that is there too.
      rw [List.getLast?_append, h.escaped part List.mem_cons_self cs bs hcs]
      rfl
    · cases cs with
      | nil =>
        have hlast := h.escaped part List.mem_cons_self [] bs hrest.symm
        cases hlast
      | cons c cs =>
        obtain ⟨rfl, -⟩ := List.cons.inj hrest
        exact hpre as cs hcs

theorem parts_nil (sep : Char) : Parts sep [] [[]] :=
  parts_singleton (by simp)

theorem parts_cut (sep : Char) (cs : List Char) : Parts sep cs (cut sep cs) := by
  -- One case for each branch of `cut`. A backslash takes the character behind it into the part.
  induction cs using cut.induct sep with
  | case1 =>
    rw [cut.eq_def]
    exact parts_nil sep
  | case2 cs ih =>
    rw [cut.eq_def]
    simp only [↓reduceIte]
    exact (parts_nil sep).cons ih
  | case3 hsep =>
    rw [cut.eq_def]
    simp only [if_neg hsep, if_true]
    refine parts_singleton fun as bs h => ?_
    cases as with
    | nil => exact absurd (List.cons.inj h).1 hsep
    | cons a as => simp at h
  | case4 e rest hsep ih =>
    rw [cut.eq_def]
    simp only [if_neg hsep, if_true]
    refine ih.modifyHead ['\\', e] fun as bs h => ?_
    match as, h with
    | [], h => exact absurd (List.cons.inj h).1 hsep
    | [a], h => rw [← (List.cons.inj h).1]; rfl
    | a :: a' :: as, h => simp at h
  | case5 c rest hsep hc ih =>
    rw [cut.eq_def]
    simp only [if_neg hsep, if_neg hc]
    refine ih.modifyHead [c] fun as bs h => ?_
    cases as with
    | nil => exact absurd (List.cons.inj h).1 hsep
    | cons a as => simp at h

end Parts

/-! ## Names -/

section Read

variable {Oid : Type} (typeOf : String → Option Oid) (stringTag : Oid → UInt8)

/-- The attribute that `TYPE=VALUE` stands for, where `typeOf` looks up the names of attribute
types, and a string value of a type has the tag `stringTag`. -/
def readAttribute (cs : List Char) : Option (Attribute Oid) := do
  let (key, value) ← readType cs
  let type ← typeOf (String.ofList key)
  let value ← readValue (stringTag type) value
  return ⟨type, value⟩

/-- The text may stand for the relative distinguished name. -/
def ReadsRdn (cs : List Char) (rdn : Rdn Oid) : Prop :=
  ∃ parts attributes, Parts '+' cs parts ∧
    List.Forall₂ (fun part a => readAttribute typeOf stringTag part = some a) parts attributes ∧
    rdn = Multiset.ofList attributes

/-- The text may stand for the name. -/
def Reads (s : String) (name : Name Oid) : Prop :=
  s = "" ∧ name = [] ∨
    ∃ parts rdns, Parts ',' s.toList parts ∧
      List.Forall₂ (ReadsRdn typeOf stringTag) parts rdns ∧ name = rdns.reverse

/-- The relative distinguished name that a text stands for. -/
def readRdn (cs : List Char) : Option (Rdn Oid) :=
  ((cut '+' cs).mapM (readAttribute typeOf stringTag)).map Multiset.ofList

/-- The name that a text stands for. -/
def read (s : String) : Option (Name Oid) :=
  if s = "" then some []
  else ((cut ',' s.toList).mapM (readRdn typeOf stringTag)).map List.reverse

variable {typeOf : String → Option Oid} {stringTag : Oid → UInt8}

theorem forall₂_of_mapM_eq_some {α β : Type} {f : α → Option β} {xs : List α} {ys : List β}
    (h : xs.mapM f = some ys) : List.Forall₂ (fun x y => f x = some y) xs ys := by
  induction xs generalizing ys with
  | nil =>
    cases h
    exact .nil
  | cons x xs ih =>
    simp only [List.mapM_cons, Option.bind_eq_bind, Option.bind_eq_some_iff] at h
    obtain ⟨y, hy, ys', hys', heq⟩ := h
    obtain rfl := Option.some.inj heq
    exact .cons hy (ih hys')

theorem forall₂_singleton_left_iff {α β : Type} {R : α → β → Prop} {x : α} {ys : List β} :
    List.Forall₂ R [x] ys ↔ ∃ y, R x y ∧ ys = [y] := by
  simp [List.forall₂_cons_left_iff]

theorem forall₂_singleton_right_iff {α β : Type} {R : α → β → Prop} {xs : List α} {y : β} :
    List.Forall₂ R xs [y] ↔ ∃ x, R x y ∧ xs = [x] := by
  simp [List.forall₂_cons_right_iff]

theorem readsRdn_of_readRdn {cs : List Char} {rdn : Rdn Oid}
    (h : readRdn typeOf stringTag cs = some rdn) : ReadsRdn typeOf stringTag cs rdn := by
  obtain ⟨attributes, hattributes, rfl⟩ := Option.map_eq_some_iff.mp h
  exact ⟨_, attributes, parts_cut '+' cs, forall₂_of_mapM_eq_some hattributes, rfl⟩

theorem reads_of_read {s : String} {name : Name Oid} (h : read typeOf stringTag s = some name) :
    Reads typeOf stringTag s name := by
  by_cases hs : s = ""
  · rw [read, if_pos hs] at h
    exact .inl ⟨hs, (Option.some.inj h).symm⟩
  · rw [read, if_neg hs] at h
    obtain ⟨rdns, hrdns, rfl⟩ := Option.map_eq_some_iff.mp h
    refine .inr ⟨_, rdns, parts_cut ',' s.toList, ?_, rfl⟩
    exact (forall₂_of_mapM_eq_some hrdns).imp fun _ _ => readsRdn_of_readRdn

/-- The name of an attribute type, as it can stand before the equals sign. -/
def TypeName (key : String) : Prop :=
  ∀ c ∈ key.toList, c ≠ '\\' ∧ c ≠ '=' ∧ c ≠ ',' ∧ c ≠ '+'

instance (key : String) : Decidable (TypeName key) :=
  List.decidableBAll _ key.toList

/-- A string that needs no escape to stand for itself as the only value of a name. -/
structure Plain (s : String) : Prop where
  backslash : '\\' ∉ s.toList
  comma : ',' ∉ s.toList
  plus : '+' ∉ s.toList
  sharp : s.toList.head? ≠ some '#'

section Attribute

variable {key s : String} {name : Name Oid}

theorem toList_attribute (key s : String) :
    (key ++ "=" ++ s).toList = key.toList ++ '=' :: s.toList := by
  simp

theorem attribute_ne_empty (key s : String) : key ++ "=" ++ s ≠ "" := by
  rw [ne_eq, ← String.toList_inj, toList_attribute]
  simp

/-- Neither a backslash nor a separator stands before the value. -/
theorem TypeName.notMem_iff (hkey : TypeName key) {c : Char} (hc : c = '\\' ∨ c = ',' ∨ c = '+') :
    c ∉ key.toList ++ '=' :: s.toList ↔ c ∉ s.toList := by
  have hne : c ≠ '=' := by rcases hc with rfl | rfl | rfl <;> decide
  have hnotMem : c ∉ key.toList := fun hmem => by
    have := hkey c hmem
    grind
  simp [hne, hnotMem]

theorem readAttribute_eq_some_iff (hkey : TypeName key) {a : Attribute Oid} :
    readAttribute typeOf stringTag (key.toList ++ '=' :: s.toList) = some a ↔
      typeOf key = some a.type ∧ readValue (stringTag a.type) s.toList = some a.value := by
  have hequals : '=' ∉ key.toList := fun hmem => (hkey _ hmem).2.1 rfl
  simp only [readAttribute, readType_append hequals, Option.bind_eq_bind, Option.bind_some,
    String.ofList_toList, Option.bind_eq_some_iff]
  constructor
  · rintro ⟨type, htype, value, hvalue, heq⟩
    obtain rfl := Option.some.inj heq
    exact ⟨htype, hvalue⟩
  · rintro ⟨htype, hvalue⟩
    exact ⟨_, htype, _, hvalue, rfl⟩

/-- A parser takes `TYPE=TEXT` for one attribute with this text if the text needs no escape. -/
theorem Reads.exists_of_plain (h : Reads typeOf stringTag (key ++ "=" ++ s) name)
    (hkey : TypeName key) (hs : Plain s) :
    ∃ type, typeOf key = some type ∧ name = [{⟨type, ⟨stringTag type, Text.utf8 s⟩⟩}] := by
  rcases h with ⟨hempty, -⟩ | ⟨parts, rdns, hparts, hrdns, rfl⟩
  · exact absurd hempty (attribute_ne_empty key s)
  rw [toList_attribute] at hparts
  obtain rfl := hparts.eq_singleton ((hkey.notMem_iff (by simp)).mpr hs.comma)
  obtain ⟨rdn, hrdn, rfl⟩ := forall₂_singleton_left_iff.mp hrdns
  obtain ⟨parts, attributes, hparts, hattributes, rfl⟩ := hrdn
  obtain rfl := hparts.eq_singleton ((hkey.notMem_iff (by simp)).mpr hs.plus)
  obtain ⟨⟨type, value⟩, ha, rfl⟩ := forall₂_singleton_left_iff.mp hattributes
  obtain ⟨htype, hvalue⟩ := (readAttribute_eq_some_iff hkey).mp ha
  obtain rfl : value = ⟨stringTag type, Text.utf8 s⟩ := by
    rw [Text.utf8_eq_flatMap]
    apply Option.some.inj
    exact hvalue.symm.trans ((readValue_eq_iff _ _ _).mpr ⟨rfl, hs.backslash, hs.sharp⟩)
  exact ⟨type, htype, rfl⟩

/-- A parser takes `TYPE=TEXT` for one attribute with this text only if the text needs no escape. -/
theorem Reads.plain {type : Oid} {tag : UInt8} (hkey : TypeName key)
    (h : Reads typeOf stringTag (key ++ "=" ++ s) [{⟨type, ⟨tag, Text.utf8 s⟩⟩}]) : Plain s := by
  rcases h with ⟨hempty, -⟩ | ⟨parts, rdns, hparts, hrdns, hname⟩
  · exact absurd hempty (attribute_ne_empty key s)
  obtain rfl := List.reverse_eq_iff.mp hname.symm
  obtain ⟨part, ⟨parts', attributes, hparts', hattributes, hrdn⟩, rfl⟩ :=
    forall₂_singleton_right_iff.mp hrdns
  obtain rfl := Multiset.coe_eq_singleton.mp hrdn.symm
  obtain ⟨part', ha, rfl⟩ := forall₂_singleton_right_iff.mp hattributes
  obtain rfl := hparts'.eq_of_singleton
  obtain rfl := hparts.eq_of_singleton
  rw [toList_attribute] at ha hparts hparts'
  -- The value is the text itself, which leaves no room for an escape.
  obtain ⟨-, hvalue⟩ := (readAttribute_eq_some_iff hkey).mp ha
  rw [Text.utf8_eq_flatMap] at hvalue
  obtain ⟨-, hbackslash, hsharp⟩ := (readValue_eq_iff _ _ _).mp hvalue
  have hbackslash' := (hkey.notMem_iff (s := s) (.inl rfl)).mpr hbackslash
  exact ⟨hbackslash, (hkey.notMem_iff (by simp)).mp (hparts.notMem hbackslash'),
    (hkey.notMem_iff (by simp)).mp (hparts'.notMem hbackslash'), hsharp⟩

end Attribute

/-- A comma that no backslash stands before separates, and the text behind it comes first in the
name. -/
theorem Reads.exists_append {s s' : String} {name : Name Oid}
    (h : Reads typeOf stringTag (s ++ "," ++ s') name) (hlast : s.toList.getLast? ≠ some '\\') :
    ∃ name₁ name₂, Reads typeOf stringTag s name₁ ∧ Reads typeOf stringTag s' name₂ ∧
      name = name₂ ++ name₁ := by
  have htext : (s ++ "," ++ s').toList = s.toList ++ ',' :: s'.toList := by simp
  rcases h with ⟨hempty, -⟩ | ⟨parts, rdns, hparts, hrdns, rfl⟩
  · rw [hempty] at htext
    simp at htext
  rw [htext] at hparts
  obtain ⟨ps, qs, rfl, hps, hqs⟩ := hparts.exists_append hlast
  have hrdns₁ := List.forall₂_take ps.length hrdns
  have hrdns₂ := List.forall₂_drop ps.length hrdns
  rw [List.take_left] at hrdns₁
  rw [List.drop_left] at hrdns₂
  refine ⟨_, _, .inr ⟨ps, _, hps, hrdns₁, rfl⟩, .inr ⟨qs, _, hqs, hrdns₂, rfl⟩, ?_⟩
  rw [← List.reverse_append, List.take_append_drop]

end Read

end Rfc4514
