import SumoProvision.Foundations.OrderedMap
import SumoProvision.Wire.ContentHash

/-!
# The vehicle model

A vehicle's state is a flat tree of entities keyed by their path, each holding content-hashed parts
(`wire::Tree`, `wire::Entity`, `wire::Part`). One type serves for the observed state, read from a
rig, and for the desired state, a release. The map is an ordered one (`BTreeMap` in the source), so
iteration visits the paths in ascending order.
-/

namespace Wire

/-- One updatable unit on an entity: a logical id with a content hash, of some open kind. -/
structure Part where
  /-- Open kind, e.g. `"file"`. -/
  kind : String
  /-- Logical id within the entity, e.g. `"kernel"`. -/
  id : String
  /-- The observed or desired plaintext hash. -/
  content : ContentHash
  deriving DecidableEq

/-- A component's update capability, as the device reports it. -/
structure UpdateMode where
  /-- `"banked"` or `"singleshot"`. -/
  mode : String
  /-- Whether a flashed update can be rolled back. -/
  supportsRollback : Bool
  dualBank : Bool := false
  /-- `"local"`, `"requires_ecu_reset"` or `"none"`. -/
  resetKind : String := ""
  deriving DecidableEq

/-- A node of the vehicle tree with the parts installed on it. -/
structure Entity where
  /-- Open kind, e.g. `"vm"`. -/
  kind : String := ""
  /-- Human-readable version label. -/
  version : Option String := none
  /-- The update capability, when the device reports one. -/
  updateMode : Option UpdateMode := none
  parts : List Part := []
  /-- Administratively disabled in the release; an observed tree never sets it. -/
  disabled : Bool := false
  /-- Observed administrative state; `none` when the component does not report one. -/
  adminDisabled : Option Bool := none
  deriving DecidableEq

/-- A vehicle's state as a flat tree keyed by entity path. -/
structure Tree where
  entities : Std.ExtTreeMap String Entity

namespace Tree

/-- The tree with the given entities. -/
def ofList (entries : List (String × Entity)) : Tree :=
  ⟨.ofList entries⟩

/-- The tree without entities. -/
def empty : Tree :=
  ⟨∅⟩

/-- The tree with an entity at a path, in place of the one that was there. -/
def insert (t : Tree) (path : String) (e : Entity) : Tree :=
  ⟨t.entities.insert path e⟩

/-- The entities in ascending order of their paths. -/
def toList (t : Tree) : List (String × Entity) :=
  t.entities.toList

/-- The entity at a path. -/
def get? (t : Tree) (path : String) : Option Entity :=
  t.entities[path]?

/-- Whether there is an entity at a path. -/
def containsKey (t : Tree) (path : String) : Bool :=
  t.entities.contains path

/-- The administrative state reported at a path. -/
def adminDisabled (t : Tree) (path : String) : Option Bool :=
  (t.get? path).bind (·.adminDisabled)

/-- The parts at a path; there are none where there is no entity. -/
def partsAt (t : Tree) (path : String) : List Part :=
  ((t.get? path).getD {}).parts

/-- No entity has two parts with one id. -/
def DistinctIds (t : Tree) : Prop :=
  ∀ path e, t.get? path = some e → (e.parts.map (·.id)).Nodup

theorem pairwise_lt_toList (t : Tree) : t.toList.Pairwise fun a b => a.1 < b.1 :=
  OrderedMap.pairwise_lt_toList t.entities

theorem nodup_keys_toList (t : Tree) : (t.toList.map Prod.fst).Nodup :=
  OrderedMap.nodup_keys_toList t.entities

@[simp] theorem mem_toList {t : Tree} {path : String} {e : Entity} :
    (path, e) ∈ t.toList ↔ t.get? path = some e :=
  OrderedMap.mem_toList

theorem filter_toList (t : Tree) (path : String) :
    t.toList.filter (fun e => e.1 = path) = (t.get? path).toList.map fun e => (path, e) :=
  OrderedMap.filter_toList t.entities path

theorem toList_ofList {l : List (String × Entity)} (hl : l.Pairwise fun a b => a.1 < b.1) :
    (ofList l).toList = l :=
  OrderedMap.toList_ofList hl

theorem mem_toList_ofList {l : List (String × Entity)} (hl : (l.map Prod.fst).Nodup)
    {entry : String × Entity} : entry ∈ (ofList l).toList ↔ entry ∈ l :=
  OrderedMap.mem_toList_ofList hl

theorem length_toList_ofList_iff {l : List (String × Entity)} :
    (ofList l).toList.length = l.length ↔ (l.map Prod.fst).Nodup :=
  OrderedMap.length_toList_ofList_iff

/-- A loop that inserts the entities of a list collects the list. -/
theorem foldl_insert_eq_ofList (l : List (String × Entity)) :
    l.foldl (fun t e => t.insert e.1 e.2) empty = ofList l := by
  have hentities : ∀ t : Tree, (l.foldl (fun t e => t.insert e.1 e.2) t).entities =
      l.foldl (fun m e => m.insert e.1 e.2) t.entities := by
    induction l with
    | nil => exact fun t => rfl
    | cons e l ih => exact fun t => ih (t.insert e.1 e.2)
  exact congrArg Tree.mk ((hentities empty).trans (OrderedMap.foldl_insert_eq_ofList l))

/-- A tree is collected from its entities. -/
theorem ofList_toList (t : Tree) : ofList t.toList = t :=
  congrArg Tree.mk (OrderedMap.ofList_toList t.entities)

theorem get?_ofList {l : List (String × Entity)} (hl : (l.map Prod.fst).Nodup) {path : String}
    {e : Entity} : (ofList l).get? path = some e ↔ (path, e) ∈ l := by
  rw [← mem_toList, mem_toList_ofList hl]

theorem get?_insert (t : Tree) (path path' : String) (e : Entity) :
    (t.insert path e).get? path' = if path = path' then some e else t.get? path' := by
  rw [get?, insert, Std.ExtTreeMap.getElem?_insert]
  simp only [Std.compare_eq_iff_eq]
  rfl

theorem containsKey_iff {t : Tree} {path : String} :
    t.containsKey path = true ↔ ∃ e, t.get? path = some e :=
  OrderedMap.contains_iff

theorem containsKey_eq_false_iff {t : Tree} {path : String} :
    t.containsKey path = false ↔ t.get? path = none :=
  OrderedMap.contains_eq_false_iff

theorem adminDisabled_of_get? {t : Tree} {path : String} {e : Entity}
    (h : t.get? path = some e) : t.adminDisabled path = e.adminDisabled := by
  simp [adminDisabled, h]

theorem DistinctIds.partsAt {t : Tree} (h : t.DistinctIds) (path : String) :
    ((t.partsAt path).map (·.id)).Nodup := by
  rw [Tree.partsAt]
  cases hget : t.get? path with
  | none => exact List.nodup_nil
  | some e => exact h path e hget

theorem distinctIds_ofList {l : List (String × Entity)}
    (h : ∀ entry ∈ l, (entry.2.parts.map (·.id)).Nodup) : (ofList l).DistinctIds :=
  fun _ _ he => h _ (OrderedMap.mem_of_getElem?_ofList he)

end Tree

end Wire
