import Mathlib.Data.String.Basic
import SumoProvision.Foundations.OrderedMap

/-!
# JSON values and derived codecs

JSON values as a generic document type, and the combinators from which a derived codec for a record
is made. A value is read as a record from an object by field names or from an array by positions;
unknown fields are ignored, and a missing field is an error unless it has a default.

Decoding yields an option: why a document is refused plays no role here.
-/

/-- A JSON value. The fields of an object are the iteration of an ordered map. -/
inductive Json where
  | null
  | bool (b : Bool)
  | int (n : ℤ)
  | float (literal : String)
  | string (s : String)
  | array (elems : List Json)
  | object (fields : List (String × Json))

namespace Json

open Std (ExtTreeMap)

variable {α β : Type}

/-! ## Encoding -/

/-- The object that inserting the fields one by one builds. -/
def ofFields (fields : List (String × Json)) : Json :=
  .object (ExtTreeMap.ofList fields).toList

/-- A field that is left out if it has no value. -/
def skipNone (name : String) (encode : α → Json) (value : Option α) : List (String × Json) :=
  value.toList.map fun a => (name, encode a)

/-! ## Decoding -/

def decodeBool : Json → Option Bool
  | .bool b => some b
  | _ => none

def decodeString : Json → Option String
  | .string s => some s
  | _ => none

/-- A signed integer, if it can be represented. -/
def decodeInt64 : Json → Option Int64
  | .int n => if (Int64.ofInt n).toInt = n then some (.ofInt n) else none
  | _ => none

/-- An unsigned integer, if it can be represented. -/
def decodeUInt64 : Json → Option UInt64
  | .int n => if (UInt64.ofNat n.toNat).toNat = n then some (.ofNat n.toNat) else none
  | _ => none

/-- `null` is no value. -/
def decodeOption (decode : Json → Option α) : Json → Option (Option α)
  | .null => some none
  | json => (decode json).map some

def decodeList (decode : Json → Option α) : Json → Option (List α)
  | .array elems => elems.mapM decode
  | _ => none

/-- The entries of a map with text keys, in the order of the object. -/
def decodeMap (decode : Json → Option α) : Json → Option (List (String × α))
  | .object fields => fields.mapM fun e => (decode e.2).map fun a => (e.1, a)
  | _ => none

/-- What a document has for each field of a record. -/
abbrev Record := String → Option Json

/-- Read a document as a record with the given fields. -/
def record (names : List String) : Json → Option Record
  | .object fields => some fun name => fields.lookup name
  | .array elems =>
    -- An array gives the fields in order and may end early, but not go on.
    if elems.length ≤ names.length then some fun name => elems[names.idxOf name]? else none
  | _ => none

/-- A field without a default. -/
def Record.required (r : Record) (name : String) (decode : Json → Option α) : Option α :=
  (r name).bind decode

/-- A field with a default. -/
def Record.orDefault (r : Record) (name : String) (decode : Json → Option α) (default : α) :
    Option α :=
  (r name).elim (some default) decode

/-! ## Round trips -/

@[simp] theorem decodeBool_bool (b : Bool) : decodeBool (.bool b) = some b := rfl

@[simp] theorem decodeString_string (s : String) : decodeString (.string s) = some s := rfl

@[simp] theorem decodeInt64_int (n : Int64) : decodeInt64 (.int n.toInt) = some n := by
  rw [decodeInt64, Int64.ofInt_toInt, if_pos rfl]

@[simp] theorem decodeUInt64_int (n : UInt64) : decodeUInt64 (.int n.toNat) = some n := by
  rw [decodeUInt64, Int.toNat_natCast, UInt64.ofNat_toNat, if_pos rfl]

/-- A decoder of a type whose encoding is never `null` also decodes the optional type. -/
theorem decodeOption_of_ne_null {decode : Json → Option α} {json : Json} (h : json ≠ .null) :
    decodeOption decode json = (decode json).map some := by
  cases json <;> first | rfl | exact absurd rfl h

theorem mapM_map_eq_some {f : β → Option α} {g : α → β} (h : ∀ a, f (g a) = some a) (l : List α) :
    (l.map g).mapM f = some l := by
  induction l with
  | nil => rfl
  | cons a l ih => simp [h, ih]

theorem decodeList_array {decode : Json → Option α} {encode : α → Json}
    (h : ∀ a, decode (encode a) = some a) (l : List α) :
    decodeList decode (.array (l.map encode)) = some l :=
  mapM_map_eq_some h l

/-- The object built from fields with ascending names decodes to the same fields. -/
theorem decodeMap_ofFields {decode : Json → Option α} {encode : α → Json}
    (h : ∀ a, decode (encode a) = some a) {l : List (String × α)}
    (hl : l.Pairwise fun a b => a.1 < b.1) :
    decodeMap decode (.ofFields (l.map fun e => (e.1, encode e.2))) = some l := by
  have hsorted : (l.map fun e => (e.1, encode e.2)).Pairwise fun a b => a.1 < b.1 :=
    List.pairwise_map.mpr hl
  rw [ofFields, OrderedMap.toList_ofList hsorted, decodeMap]
  exact mapM_map_eq_some (fun e => by simp [h]) l

theorem lookup_cons (name key : String) (json : Json) (fields : List (String × Json)) :
    ((key, json) :: fields).lookup name =
      if name = key then some json else fields.lookup name := by
  rw [List.lookup_cons]
  by_cases h : name = key
  · simp [h]
  · rw [beq_false_of_ne h, if_neg h]

@[simp] theorem reverse_skipNone (name : String) (encode : α → Json) (value : Option α) :
    (skipNone name encode value).reverse = skipNone name encode value := by
  cases value <;> rfl

theorem lookup_skipNone (name key : String) (encode : α → Json) (value : Option α) :
    (skipNone key encode value).lookup name = if name = key then value.map encode else none := by
  cases value with
  | none => simp [skipNone]
  | some a => simp [skipNone, lookup_cons]

/-- A field that is left out if it has no value, and whose default is to have none. -/
theorem elim_map_decodeOption {decode : Json → Option α} {encode : α → Json}
    (h : ∀ a, decode (encode a) = some a) (hnull : ∀ a, encode a ≠ .null) (value : Option α) :
    (value.map encode).elim (some none) (decodeOption decode) = some value := by
  cases value with
  | none => rfl
  | some a =>
    rw [Option.map_some, Option.elim_some, decodeOption_of_ne_null (hnull a), h, Option.map_some]

/-- An object has for each field what was last inserted under its name. -/
theorem record_ofFields (names : List String) (fields : List (String × Json)) :
    (ofFields fields).record names = some fun name => fields.reverse.lookup name := by
  rw [ofFields, record]
  refine congrArg some (funext fun name => ?_)
  rw [OrderedMap.lookup_toList, OrderedMap.getElem?_ofList]

end Json
