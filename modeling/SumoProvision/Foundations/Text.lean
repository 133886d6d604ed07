import Mathlib.Data.List.Basic
import Mathlib.Data.String.Basic
import Mathlib.Logic.Function.Basic

/-!
# Delimited text

When a concatenation of variable-length fields determines the fields. The one idea is
`append_inj_of_head`: two splittings of a list agree when their heads consist of elements of one
kind and their tails start with an element of the other kind. From it:

* `append_cons_inj`: a field ends at the first separator if it contains none.
* `flatMap_terminated_inj`: a list of separator-free fields, each followed by the separator.
* `intercalate_inj`: a list of nonempty separator-free fields, joined by the separator.

The last two sections collect what such arguments need of decimal numerals, and of decoding UTF-8.
-/

namespace Text

variable {α : Type}

/-- A first component that satisfies `p` ends where an element does not. -/
theorem takeWhile_append_of_head {p : α → Bool} {a b : List α} (ha : ∀ x ∈ a, p x = true)
    (hb : ∀ x ∈ b.head?, p x = false) : (a ++ b).takeWhile p = a := by
  have hstop : b.takeWhile p = [] := by
    cases b with
    | nil => rfl
    | cons x b => simp [hb x (by simp)]
  rw [List.takeWhile_append_of_pos ha, hstop, List.append_nil]

/-- Two splittings of one list agree if all elements of the first components satisfy `p` and the
second components start with an element that does not. -/
theorem append_inj_of_head {p : α → Bool} {a b c d : List α} (ha : ∀ x ∈ a, p x = true)
    (hc : ∀ x ∈ c, p x = true) (hb : ∀ x ∈ b.head?, p x = false)
    (hd : ∀ x ∈ d.head?, p x = false) (h : a ++ b = c ++ d) : a = c ∧ b = d := by
  have hac : a = c := by
    rw [← takeWhile_append_of_head ha hb, h, takeWhile_append_of_head hc hd]
  subst hac
  exact ⟨rfl, List.append_cancel_left h⟩

/-- A field without separator ends at the first separator. -/
theorem append_cons_inj [DecidableEq α] {sep : α} {a b c d : List α} (ha : sep ∉ a) (hc : sep ∉ c)
    (h : a ++ sep :: b = c ++ sep :: d) : a = c ∧ b = d := by
  have key := append_inj_of_head (p := fun x => decide (x ≠ sep))
    (fun x hx => decide_eq_true fun heq => ha (heq ▸ hx))
    (fun x hx => decide_eq_true fun heq => hc (heq ▸ hx)) (by simp) (by simp) h
  exact ⟨key.1, List.tail_eq_of_cons_eq key.2⟩

/-- Separator-free fields, each followed by the separator, are determined by the text. -/
theorem flatMap_terminated_inj [DecidableEq α] {sep : α} {ls ms : List (List α)}
    (hl : ∀ l ∈ ls, sep ∉ l) (hm : ∀ m ∈ ms, sep ∉ m)
    (h : ls.flatMap (· ++ [sep]) = ms.flatMap (· ++ [sep])) : ls = ms := by
  induction ls generalizing ms with
  | nil =>
    cases ms with
    | nil => rfl
    | cons m ms => simp at h
  | cons l ls ih =>
    cases ms with
    | nil => simp at h
    | cons m ms =>
      simp only [List.flatMap_cons, List.append_assoc, List.singleton_append] at h
      obtain ⟨hlm, hrest⟩ := append_cons_inj (hl l (by simp)) (hm m (by simp)) h
      rw [hlm, ih (fun l h => hl l (by simp [h])) (fun m h => hm m (by simp [h])) hrest]

/-- Nonempty separator-free fields, joined by the separator, are determined by the text. -/
theorem intercalate_inj [DecidableEq α] {sep : α} {ls ms : List (List α)}
    (hl : ∀ l ∈ ls, sep ∉ l) (hm : ∀ m ∈ ms, sep ∉ m) (hl' : ∀ l ∈ ls, l ≠ [])
    (hm' : ∀ m ∈ ms, m ≠ []) (h : [sep].intercalate ls = [sep].intercalate ms) : ls = ms := by
  -- Splitting at the separator undoes the joining, except for the empty list: it is joined to the
  -- empty text, as `[[]]` is, which is why the fields are not empty.
  have hempty : ∀ {ns : List (List α)}, (∀ n ∈ ns, n ≠ []) →
      [sep].intercalate ns = [] → ns = [] := by
    intro ns hns heq
    rcases ns with _ | ⟨n, _ | ⟨n', ns⟩⟩
    · rfl
    · exact absurd (by simpa using heq) (hns n (by simp))
    · simp [List.intercalate_cons_cons] at heq
  by_cases hls : ls = []
  · subst hls
    exact (hempty hm' h.symm).symm
  · have hms : ms ≠ [] := by
      rintro rfl
      exact hls (hempty hl' h)
    rw [← List.splitOn_intercalate sep hl hls, h, List.splitOn_intercalate sep hm hms]

theorem notMem_intercalate {c sep : α} {ls : List (List α)} (hsep : c ≠ sep)
    (hl : ∀ l ∈ ls, c ∉ l) : c ∉ [sep].intercalate ls := by
  induction ls with
  | nil => simp
  | cons l ls ih =>
    have htail := ih fun l h => hl l (by simp [h])
    cases ls with
    | nil => simpa using hl l (by simp)
    | cons l' ls => simp [List.intercalate_cons_cons, hsep, hl l (by simp), htail]

/-! ## White space -/

/-- `char::is_whitespace`: the characters with the property `White_Space`. -/
def isWhitespace (c : Char) : Bool :=
  let n := c.toNat
  (0x09 ≤ n && n ≤ 0x0d) || (0x2000 ≤ n && n ≤ 0x200a) ||
    [0x20, 0x85, 0xa0, 0x1680, 0x2028, 0x2029, 0x202f, 0x205f, 0x3000].contains n

/-- `str::trim`. -/
def trim (s : String) : String :=
  String.ofList ((s.toList.dropWhile isWhitespace).reverse.dropWhile isWhitespace).reverse

/-- A text without white space has nothing to trim. -/
theorem trim_eq_self {s : String} (h : ∀ c ∈ s.toList, isWhitespace c = false) : trim s = s := by
  have hdrop : ∀ l : List Char, (∀ c ∈ l, isWhitespace c = false) →
      l.dropWhile isWhitespace = l := by
    intro l hl
    cases l with
    | nil => rfl
    | cons c l => rw [List.dropWhile_cons, hl c (by simp), if_neg Bool.false_ne_true]
  rw [trim, hdrop _ h, hdrop _ fun c hc => h c (List.mem_reverse.mp hc), List.reverse_reverse,
    String.ofList_toList]

/-! ## Decimal numerals -/

/-- A decimal numeral consists of digits and at most a minus sign. -/
theorem isDigit_or_eq_minus_of_mem_toString {n : ℤ} {c : Char} (h : c ∈ (toString n).toList) :
    c.isDigit = true ∨ c = '-' := by
  rw [Int.toString_eq_repr, Int.repr_eq_if] at h
  split at h
  · rw [Nat.toList_repr] at h
    exact .inl (Nat.isDigit_of_mem_toDigits (by omega) (by omega) h)
  · rw [String.toList_append, List.mem_append, Nat.toList_repr] at h
    rcases h with h | h
    · exact .inr (by simpa using h)
    · exact .inl (Nat.isDigit_of_mem_toDigits (by omega) (by omega) h)

theorem notMem_toString {c : Char} (hdigit : c.isDigit = false) (hminus : c ≠ '-') (n : ℤ) :
    c ∉ (toString n).toList := by
  intro h
  rcases isDigit_or_eq_minus_of_mem_toString h with hd | hm
  · rw [hdigit] at hd
    cases hd
  · exact hminus hm

theorem toString_ne_nil (n : ℤ) : (toString n).toList ≠ [] := by
  rw [Int.toString_eq_repr, Int.repr_eq_if]
  split
  · rw [Nat.toList_repr]
    exact Nat.toDigits_ne_nil
  · simp

private theorem natRepr_injective {m n : ℕ} (h : m.repr = n.repr) : m = n := by
  have hdigits : Nat.toDigits 10 m = Nat.toDigits 10 n := by
    rw [← Nat.toList_repr, ← Nat.toList_repr, h]
  -- Reading the digits gives the number back.
  rw [← Nat.ofDigitChars_toDigits (b := 10) (n := m) (by omega) (by omega), hdigits,
    Nat.ofDigitChars_toDigits (by omega) (by omega)]

private theorem minus_append_ne_natRepr {s : String} {n : ℕ} : "-" ++ s ≠ n.repr := by
  intro h
  have hmem : '-' ∈ Nat.toDigits 10 n := by
    rw [← Nat.toList_repr, ← h]
    simp
  have hdigit := Nat.isDigit_of_mem_toDigits (by omega) (by omega) hmem
  exact absurd hdigit (by decide)

/-- Distinct integers have distinct numerals. -/
theorem toString_injective : Function.Injective (toString : ℤ → String) := by
  intro m n h
  rw [Int.toString_eq_repr, Int.toString_eq_repr, Int.repr_eq_if, Int.repr_eq_if] at h
  -- Two numerals of one sign determine the absolute value; of different signs, one has a minus.
  split at h <;> split at h
  · have := natRepr_injective h
    omega
  · exact absurd h.symm minus_append_ne_natRepr
  · exact absurd h minus_append_ne_natRepr
  · have hrepr : (-m).toNat.repr = (-n).toNat.repr := by
      have hl := congrArg String.toList h
      simp only [String.toList_append] at hl
      exact String.toList_inj.mp (List.append_cancel_left hl)
    have := natRepr_injective hrepr
    omega

/-! ## UTF-8 -/

/-- The UTF-8 bytes of a string. -/
def utf8 (s : String) : List UInt8 :=
  s.toByteArray.data.toList

/-- The bytes of a string are those of its characters. -/
theorem utf8_eq_flatMap (s : String) : utf8 s = s.toList.flatMap String.utf8EncodeChar := by
  rw [utf8, ← String.utf8Encode_toList, List.utf8Encode, List.toList_data_toByteArray]

theorem utf8_injective : Function.Injective utf8 := by
  intro s t h
  exact String.toByteArray_inj.mp (ByteArray.ext (Array.toList_inj.mp h))

/-- The second byte continues a character of three or four bytes. -/
def continues (first second : UInt8) : Bool :=
  -- Overlong forms are excluded behind `e0` and `f0`, surrogates behind `ed`, and what is beyond
  -- the last code point behind `f4`.
  if first = 0xe0 then 0xa0 ≤ second && second ≤ 0xbf
  else if first = 0xed then 0x80 ≤ second && second ≤ 0x9f
  else if first = 0xf0 then 0x90 ≤ second && second ≤ 0xbf
  else if first = 0xf4 then 0x80 ≤ second && second ≤ 0x8f
  else 0xe1 ≤ first && first ≤ 0xf3 && 0x80 ≤ second && second ≤ 0xbf

/-- How many bytes are replaced where no character starts: as many as begin one, at least one. -/
def invalidLength : List UInt8 → ℕ
  | first :: second :: third :: _ =>
    if continues first second then
      if 0xf0 ≤ first && 0x80 ≤ third && third ≤ 0xbf then 3 else 2
    else 1
  | [first, second] => if continues first second then 2 else 1
  | _ => 1

/-- The characters of a text, with a replacement for each sequence that is invalid. The first
argument bounds their number. -/
def replaceInvalid : ℕ → List UInt8 → List Char
  | 0, _ => []
  | _, [] => []
  | n + 1, bytes =>
    match (ByteArray.mk bytes.toArray).utf8DecodeChar? 0 with
    | some c => c :: replaceInvalid n (bytes.drop c.utf8Size)
    -- U+FFFD stands for the longest beginning of a character, as in the standard library.
    | none => Char.ofNat 0xfffd :: replaceInvalid n (bytes.drop (invalidLength bytes))

/-- `String::from_utf8_lossy`. -/
def fromUtf8Lossy (bytes : List UInt8) : String :=
  (String.fromUTF8? ⟨bytes.toArray⟩).getD (String.ofList (replaceInvalid bytes.length bytes))

/-- Nothing is lost of a valid text. -/
@[simp] theorem fromUtf8Lossy_utf8 (s : String) : fromUtf8Lossy (utf8 s) = s := by
  have hvalid : String.fromUTF8? ⟨(utf8 s).toArray⟩ = some s := by
    rw [String.fromUTF8?]
    exact dif_pos s.isValidUTF8
  rw [fromUtf8Lossy, hvalid, Option.getD_some]

end Text
