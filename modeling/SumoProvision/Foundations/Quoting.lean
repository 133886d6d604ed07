import Mathlib.Data.List.Basic
import Mathlib.Logic.Function.Basic

/-!
# Quoting

A text between quotes, in which an escape character takes the next character literally and an
unescaped quote ends the text. `escape` prepares a text for it by two replacements, of the escapes
and then of the quotes; `scan` and `unescape` are the two halves of reading it.

* `escape_eq_flatMap`: in that order, the replacements are a replacement of one character at a time.
* `scan_escape`: reading an escaped text stops at the quote behind it, whatever comes next.
* `scan_eq_none_of_append`: it does not stop earlier.
* `unescape_escape`: what was read is the text again.
-/

namespace Quoting

variable {α : Type} [DecidableEq α]

/-- Put a text in the place of every `a`. -/
def replace (a : α) (text l : List α) : List α :=
  l.flatMap fun x => if x = a then text else [x]

@[simp] theorem replace_nil (a : α) (text : List α) : replace a text [] = [] := rfl

@[simp] theorem replace_cons_self (a : α) (text l : List α) :
    replace a text (a :: l) = text ++ replace a text l := by
  simp [replace]

@[simp] theorem replace_cons_of_ne {a x : α} (h : x ≠ a) (text l : List α) :
    replace a text (x :: l) = x :: replace a text l := by
  simp [replace, h]

section Definitions

variable (esc quote : α)

/-- Escape the escape characters, and then the quotes. -/
def escape (l : List α) : List α :=
  replace quote [esc, quote] (replace esc [esc, esc] l)

/-- One character of an escaped text. -/
def escapeChar (x : α) : List α :=
  if x = esc ∨ x = quote then [esc, x] else [x]

/-- Read up to the first quote that is not escaped: what stands before it, and what comes after. -/
def scan : List α → Option (List α × List α)
  | [] => none
  | x :: rest =>
    if x = quote then some ([], rest)
    else if x = esc then
      match rest with
      | [] => none
      | y :: rest => (scan rest).map fun (raw, tail) => (x :: y :: raw, tail)
    else (scan rest).map fun (raw, tail) => (x :: raw, tail)

/-- Take the character behind an escape literally. -/
def unescape : List α → List α
  | [] => []
  | x :: rest =>
    if x = esc then
      match rest with
      | [] => [x]
      | y :: rest => y :: unescape rest
    else x :: unescape rest

end Definitions

variable {esc quote : α}

/-! ## One step of reading -/

@[simp] theorem scan_quote (rest : List α) : scan esc quote (quote :: rest) = some ([], rest) := by
  rw [scan.eq_def]
  exact if_pos rfl

theorem scan_esc (h : esc ≠ quote) (y : α) (rest : List α) :
    scan esc quote (esc :: y :: rest) =
      (scan esc quote rest).map fun (raw, tail) => (esc :: y :: raw, tail) := by
  rw [scan.eq_def]
  exact (if_neg h).trans (if_pos rfl)

theorem scan_cons_of_ne {x : α} (hquote : x ≠ quote) (hesc : x ≠ esc) (rest : List α) :
    scan esc quote (x :: rest) =
      (scan esc quote rest).map fun (raw, tail) => (x :: raw, tail) := by
  rw [scan.eq_def]
  exact (if_neg hquote).trans (if_neg hesc)

theorem unescape_esc (y : α) (rest : List α) :
    unescape esc (esc :: y :: rest) = y :: unescape esc rest := by
  rw [unescape.eq_def]
  exact if_pos rfl

theorem unescape_cons_of_ne {x : α} (h : x ≠ esc) (rest : List α) :
    unescape esc (x :: rest) = x :: unescape esc rest := by
  rw [unescape.eq_def]
  exact if_neg h

/-! ## What reading returns -/

/-- What was read, the quote and the rest make up the text, and more text behind it would not have
changed what was read. -/
theorem scan_eq_some {l raw rest : List α} (h : scan esc quote l = some (raw, rest)) :
    l = raw ++ quote :: rest ∧
      ∀ more, scan esc quote (l ++ more) = some (raw, rest ++ more) := by
  -- One case for each branch of the scanner. It stops at the first quote that is not escaped, so
  -- what is appended behind is not looked at.
  induction l using scan.induct esc quote generalizing raw with
  | case1 => simp [scan] at h
  | case2 tail =>
    rw [scan_quote, Option.some.injEq, Prod.mk.injEq] at h
    obtain ⟨rfl, rfl⟩ := h
    exact ⟨rfl, fun more => scan_quote _⟩
  | case3 hquote => simp [scan, hquote] at h
  | case4 y tail hquote ih =>
    rw [scan_esc hquote, Option.map_eq_some_iff] at h
    obtain ⟨⟨raw', rest'⟩, htail, heq⟩ := h
    cases heq
    obtain ⟨happend, hmore⟩ := ih htail
    refine ⟨by rw [happend]; rfl, fun more => ?_⟩
    show scan esc quote (esc :: y :: (tail ++ more)) = _
    rw [scan_esc hquote, hmore]
    rfl
  | case5 x tail hquote hesc ih =>
    rw [scan_cons_of_ne hquote hesc, Option.map_eq_some_iff] at h
    obtain ⟨⟨raw', rest'⟩, htail, heq⟩ := h
    cases heq
    obtain ⟨happend, hmore⟩ := ih htail
    refine ⟨by rw [happend]; rfl, fun more => ?_⟩
    show scan esc quote (x :: (tail ++ more)) = _
    rw [scan_cons_of_ne hquote hesc, hmore]
    rfl

/-! ## Escaped texts -/

section Escaped

variable (h : esc ≠ quote)
include h

/-- The quotes are replaced last, so no escape that is put before one is escaped again. -/
theorem escape_cons (x : α) (l : List α) :
    escape esc quote (x :: l) = escapeChar esc quote x ++ escape esc quote l := by
  by_cases hesc : x = esc
  · subst hesc
    simp [escape, escapeChar, h]
  · by_cases hquote : x = quote
    · subst hquote
      simp [escape, escapeChar, hesc]
    · simp [escape, escapeChar, hesc, hquote]

theorem escape_eq_flatMap (l : List α) :
    escape esc quote l = l.flatMap (escapeChar esc quote) := by
  induction l with
  | nil => rfl
  | cons x l ih => rw [escape_cons h, List.flatMap_cons, ih]

/-- A text with nothing to escape is its own escaped text. -/
theorem escape_eq_self {l : List α} (hesc : esc ∉ l) (hquote : quote ∉ l) :
    escape esc quote l = l := by
  rw [escape_eq_flatMap h]
  calc
    l.flatMap (escapeChar esc quote) = l.flatMap ([·]) := by
      refine List.flatMap_congr fun x hx => if_neg ?_
      rintro (rfl | rfl)
      · exact hesc hx
      · exact hquote hx
    _ = l := List.flatMap_singleton' l

/-- The closing quote is the one behind the escaped text. -/
theorem scan_escape (l rest : List α) :
    scan esc quote (escape esc quote l ++ quote :: rest) = some (escape esc quote l, rest) := by
  induction l with
  | nil => exact scan_quote rest
  | cons x l ih =>
    rw [escape_cons h, escapeChar]
    split_ifs with hx
    · show scan esc quote (esc :: x :: (escape esc quote l ++ quote :: rest)) = _
      rw [scan_esc h, ih]
      rfl
    · rw [not_or] at hx
      show scan esc quote (x :: (escape esc quote l ++ quote :: rest)) = _
      rw [scan_cons_of_ne hx.2 hx.1, ih]
      rfl

/-- In the other order, the escape before a quote is escaped itself, and the quote ends the text. -/
example : scan 0 1 (replace 0 [0, 0] (replace 1 [0, 1] [1, 2])) = some ([0, 0], [2]) := by decide

theorem unescape_escape (l : List α) : unescape esc (escape esc quote l) = l := by
  induction l with
  | nil => rfl
  | cons x l ih =>
    rw [escape_cons h, escapeChar]
    split_ifs with hx
    · show unescape esc (esc :: x :: escape esc quote l) = x :: l
      rw [unescape_esc, ih]
    · rw [not_or] at hx
      show unescape esc (x :: escape esc quote l) = x :: l
      rw [unescape_cons_of_ne hx.1, ih]

theorem escape_injective : Function.Injective (escape esc quote) :=
  Function.LeftInverse.injective (unescape_escape h)

/-- No beginning of an escaped text has an unescaped quote. -/
theorem scan_eq_none_of_append {l pre post : List α} (hl : escape esc quote l = pre ++ post) :
    scan esc quote pre = none := by
  rw [Option.eq_none_iff_forall_ne_some]
  rintro ⟨raw, rest⟩ hpre
  -- Read on to the closing quote, the text that was read would be all of it.
  obtain ⟨happend, hmore⟩ := scan_eq_some hpre
  have hscan := hmore (post ++ [quote])
  rw [← List.append_assoc, ← hl, scan_escape h, Option.some.injEq, Prod.mk.injEq] at hscan
  have hlen := congrArg List.length hl
  rw [hscan.1, happend] at hlen
  simp only [List.length_append, List.length_cons] at hlen
  omega

end Escaped

end Quoting
