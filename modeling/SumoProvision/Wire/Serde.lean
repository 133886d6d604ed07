import SumoProvision.Foundations.Json
import SumoProvision.Wire.Tree

/-!
# The JSON form of the vehicle model

The derived `Serialize` and `Deserialize` of `ContentHash`, `Part`, `UpdateMode`, `Entity` and
`Tree`, with the attributes the source gives them: a content hash goes through its text, an update
mode is renamed, an absent `version`, `update_mode` and `admin_disabled` is left out, and all fields
of an entity as well as the last two of an update mode have a default.

`Tree.fromJson_toJson` is the round trip of a whole tree, put together from those of its types.
-/

namespace Wire

open Json (ofFields skipNone record decodeBool decodeString decodeOption decodeList decodeMap)

/-! ## Encoding -/

/-- `#[serde(into = "String")]`. -/
def ContentHash.toJson (h : ContentHash) : Json :=
  .string h.toPrefixed

def Part.toJson (p : Part) : Json :=
  ofFields [("kind", .string p.kind), ("id", .string p.id), ("content", p.content.toJson)]

def UpdateMode.toJson (m : UpdateMode) : Json :=
  ofFields [("update_mode", .string m.mode), ("supports_rollback", .bool m.supportsRollback),
    ("dual_bank", .bool m.dualBank), ("reset_kind", .string m.resetKind)]

def Entity.toJson (e : Entity) : Json :=
  ofFields <| [("kind", .string e.kind)] ++ skipNone "version" .string e.version ++
    skipNone "update_mode" UpdateMode.toJson e.updateMode ++
    [("parts", .array (e.parts.map Part.toJson)), ("disabled", .bool e.disabled)] ++
    skipNone "admin_disabled" .bool e.adminDisabled

def Tree.toJson (t : Tree) : Json :=
  ofFields [("entities", ofFields (t.toList.map fun e => (e.1, e.2.toJson)))]

/-! ## Decoding -/

/-- `#[serde(try_from = "String")]`. -/
def ContentHash.fromJson (json : Json) : Option ContentHash := do
  let text ← decodeString json
  (ContentHash.fromStr text).toOption

def Part.fromJson (json : Json) : Option Part := do
  let r ← json.record ["kind", "id", "content"]
  let kind ← r.required "kind" decodeString
  let id ← r.required "id" decodeString
  let content ← r.required "content" ContentHash.fromJson
  return ⟨kind, id, content⟩

def UpdateMode.fromJson (json : Json) : Option UpdateMode := do
  let r ← json.record ["update_mode", "supports_rollback", "dual_bank", "reset_kind"]
  let mode ← r.required "update_mode" decodeString
  let supportsRollback ← r.required "supports_rollback" decodeBool
  let dualBank ← r.orDefault "dual_bank" decodeBool false
  let resetKind ← r.orDefault "reset_kind" decodeString ""
  return { mode, supportsRollback, dualBank, resetKind }

def Entity.fromJson (json : Json) : Option Entity := do
  let r ← json.record ["kind", "version", "update_mode", "parts", "disabled", "admin_disabled"]
  let kind ← r.orDefault "kind" decodeString ""
  let version ← r.orDefault "version" (decodeOption decodeString) none
  let updateMode ← r.orDefault "update_mode" (decodeOption UpdateMode.fromJson) none
  let parts ← r.orDefault "parts" (decodeList Part.fromJson) []
  let disabled ← r.orDefault "disabled" decodeBool false
  let adminDisabled ← r.orDefault "admin_disabled" (decodeOption decodeBool) none
  return { kind, version, updateMode, parts, disabled, adminDisabled }

def Tree.fromJson (json : Json) : Option Tree := do
  let r ← json.record ["entities"]
  -- The entities are collected into the map one by one.
  let entities ← r.required "entities" (decodeMap Entity.fromJson)
  return .ofList entities

/-! ## Round trips -/

@[simp] theorem ContentHash.fromJson_toJson (h : ContentHash) : fromJson h.toJson = some h := by
  simp [fromJson, toJson, ContentHash.fromStr_toPrefixed, Except.toOption]

@[simp] theorem Part.fromJson_toJson (p : Part) : fromJson p.toJson = some p := by
  simp [fromJson, toJson, Json.record_ofFields, Json.Record.required, Json.lookup_cons]

@[simp] theorem UpdateMode.fromJson_toJson (m : UpdateMode) : fromJson m.toJson = some m := by
  simp [fromJson, toJson, Json.record_ofFields, Json.Record.required, Json.Record.orDefault,
    Json.lookup_cons]

@[simp] theorem Entity.fromJson_toJson (e : Entity) : fromJson e.toJson = some e := by
  have hversion := Json.elim_map_decodeOption Json.decodeString_string (by simp) e.version
  have hmode := Json.elim_map_decodeOption UpdateMode.fromJson_toJson
    (by simp [UpdateMode.toJson, ofFields]) e.updateMode
  have hadmin := Json.elim_map_decodeOption Json.decodeBool_bool (by simp) e.adminDisabled
  have hparts := Json.decodeList_array Part.fromJson_toJson e.parts
  simp [fromJson, toJson, Json.record_ofFields, Json.Record.orDefault, List.lookup_append,
    Json.lookup_skipNone, Json.lookup_cons, hversion, hmode, hadmin, hparts]

/-- The JSON form of a tree decodes to the tree. -/
@[simp] theorem Tree.fromJson_toJson (t : Tree) : fromJson t.toJson = some t := by
  have hentities := Json.decodeMap_ofFields Entity.fromJson_toJson t.pairwise_lt_toList
  have hrecord : t.toJson.record ["entities"] = some fun name =>
      [("entities", ofFields (t.toList.map fun e => (e.1, e.2.toJson)))].lookup name :=
    Json.record_ofFields _ _
  simp [fromJson, hrecord, Json.Record.required, hentities, Tree.ofList_toList]

end Wire
