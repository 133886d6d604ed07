import Mathlib.Data.List.TakeWhile
import SumoProvision.Foundations.Result
import SumoProvision.SoftwareTower.Identity

/-!
# What a tree hash binds

`treeHash` binds a plan to the desired state it was made against. Its text has one line for each
entity path, the line `disabled` below the path of a disabled entity, and one line for each part.
Nothing marks what a line without NUL stands for, so a line `disabled` may be the marker of the
entity above it or the path of an entity of its own.

For names that contain no newline this is the only ambiguity: `treeHash_binds_iff` says for which
trees the hash stands for one desired state.
-/

namespace SoftwareTower

open Wire Canonical

/-! ## Definitions -/

/-- The content the entity holds for a part id. -/
def contentOf (e : Entity) (id : String) : Option ContentHash :=
  (e.parts.find? fun p => p.id = id).map (·.content)

/-- The desired state of one entity: whether it is disabled, and its content by part id. -/
def desiredState (e : Entity) : Bool × (String → Option ContentHash) :=
  (e.disabled, contentOf e)

/-- Two trees ask for the same: the same paths with the same state at each. -/
def SameDesired (t t' : Tree) : Prop :=
  ∀ path, (t.get? path).map desiredState = (t'.get? path).map desiredState

/-- What the release tables guarantee of an entity: texts without NUL, distinct part ids. -/
def ResolvableEntry (entry : String × Entity) : Prop :=
  NulFree entry.1 ∧ (∀ p ∈ entry.2.parts, NulFree p.id) ∧ (entry.2.parts.map (·.id)).Nodup

instance (entry : String × Entity) : Decidable (ResolvableEntry entry) :=
  inferInstanceAs (Decidable (_ ∧ _ ∧ _))

/-- A tree that releases can resolve to. -/
def Resolvable (t : Tree) : Prop :=
  ∀ entry ∈ t.toList, ResolvableEntry entry

instance (t : Tree) : Decidable (Resolvable t) :=
  inferInstanceAs (Decidable (∀ entry ∈ t.toList, _))

/-- The path and the part ids of an entity are single lines. -/
def OneLineEntry (entry : String × Entity) : Prop :=
  '\n' ∉ entry.1.toList ∧ ∀ p ∈ entry.2.parts, '\n' ∉ p.id.toList

instance (entry : String × Entity) : Decidable (OneLineEntry entry) :=
  inferInstanceAs (Decidable (_ ∧ _))

/-- No path and no part id of the tree contains a newline. -/
def OneLineNames (t : Tree) : Prop :=
  ∀ entry ∈ t.toList, OneLineEntry entry

instance (t : Tree) : Decidable (OneLineNames t) :=
  inferInstanceAs (Decidable (∀ entry ∈ t.toList, _))

/-- The line that marks the entity above it as disabled. -/
def marker : String :=
  "disabled"

/-- The entity after whose lines an entity named `disabled` stands, or would stand. -/
def lastBelowMarker (t : Tree) : Option Entity :=
  (t.toList.takeWhile fun entry => entry.1 < marker).getLast?.map (·.2)

/-- A line `disabled` has only one reading. Of an entity named `disabled` the one before it must
have parts, or both must be disabled; without such an entity, the one before its place must be
enabled. -/
def MarkerUnambiguous (t : Tree) : Prop :=
  ∀ e ∈ lastBelowMarker t,
    match t.get? marker with
    | none => e.disabled = false
    -- Otherwise the marker of `e` could be the path of an entity that has the parts of `e`.
    -- Part lines between the two lines tell them apart; two markers around the path do too.
    | some d => e.parts ≠ [] ∨ (e.disabled = true ∧ d.disabled = true)

/-! ## The lines of a text -/

/-- The line of one part. -/
def partLine (p : Part) : List Char :=
  p.id.toList ++ '\x00' :: p.content.toPrefixed.toList

/-- The lines of an entity's parts. -/
def partLines (e : Entity) : List (List Char) :=
  (sortOn Part.id e.parts).map partLine

/-- The marker line of a disabled entity. -/
def markerLines (disabled : Bool) : List (List Char) :=
  if disabled then [marker.toList] else []

/-- The lines of one entity. -/
def entityLines (entry : String × Entity) : List (List Char) :=
  entry.1.toList :: (markerLines entry.2.disabled ++ partLines entry.2)

/-- The lines of a list of entities. -/
def treeLines (entries : List (String × Entity)) : List (List Char) :=
  entries.flatMap entityLines

@[simp] theorem treeLines_nil : treeLines [] = [] := rfl

@[simp] theorem treeLines_cons (entry : String × Entity) (entries : List (String × Entity)) :
    treeLines (entry :: entries) =
      entry.1.toList ::
        (markerLines entry.2.disabled ++ (partLines entry.2 ++ treeLines entries)) := by
  simp [treeLines, entityLines]

@[simp] theorem treeLines_append (entries entries' : List (String × Entity)) :
    treeLines (entries ++ entries') = treeLines entries ++ treeLines entries' := by
  simp [treeLines]

@[simp] theorem markerLines_true : markerLines true = [marker.toList] := rfl

@[simp] theorem markerLines_false : markerLines false = [] := rfl

@[simp] theorem partLines_eq_nil {e : Entity} : partLines e = [] ↔ e.parts = [] := by
  rw [partLines, List.map_eq_nil_iff, ← List.length_eq_zero_iff, (perm_sortOn _ _).length_eq,
    List.length_eq_zero_iff]

private theorem toList_foldl_pushTreePart (ps : List Part) (buf : String) :
    (ps.foldl pushTreePart buf).toList = buf.toList ++ (ps.map partLine).flatMap (· ++ ['\n']) := by
  induction ps generalizing buf with
  | nil => simp
  | cons p ps ih =>
    rw [List.foldl_cons, ih]
    simp [pushTreePart, partLine]

private theorem toList_pushEntity (buf : String) (entry : String × Entity) :
    (pushEntity buf entry).toList = buf.toList ++ (entityLines entry).flatMap (· ++ ['\n']) := by
  simp only [pushEntity, toList_foldl_pushTreePart, entityLines, partLines]
  cases entry.2.disabled <;> simp [marker]

private theorem toList_foldl_pushEntity (entries : List (String × Entity)) (buf : String) :
    (entries.foldl pushEntity buf).toList =
      buf.toList ++ (treeLines entries).flatMap (· ++ ['\n']) := by
  induction entries generalizing buf with
  | nil => simp
  | cons entry entries ih =>
    rw [List.foldl_cons, ih, toList_pushEntity]
    simp [treeLines]

/-- The text is its lines, each with a newline. -/
theorem toList_treeText (t : Tree) :
    (treeText t).toList = (treeLines t.toList).flatMap (· ++ ['\n']) := by
  simp [treeText, toList_foldl_pushEntity]

theorem treeText_eq_of_treeLines_eq {t t' : Tree} (h : treeLines t.toList = treeLines t'.toList) :
    treeText t = treeText t' := by
  rw [← String.toList_inj, toList_treeText, toList_treeText, h]

/-- The path of an entity with its lines. -/
def pathLines (entry : String × Entity) : String × List (List Char) :=
  (entry.1, entityLines entry)

/-- The paths of a tree with their lines determine its text. -/
theorem treeText_eq_of_mem_pathLines {t t' : Tree}
    (h : ∀ line, line ∈ t.toList.map pathLines ↔ line ∈ t'.toList.map pathLines) :
    treeText t = treeText t' := by
  have hlines : ∀ entries, treeLines entries = (entries.map pathLines).flatMap Prod.snd := by
    intro entries
    rw [List.flatMap_map]
    rfl
  have hsorted : ∀ t : Tree, (t.toList.map pathLines).Pairwise fun a b => a.1 < b.1 :=
    fun t => List.pairwise_map.mpr t.pairwise_lt_toList
  apply treeText_eq_of_treeLines_eq
  rw [hlines, hlines]
  -- Both trees list the same paths with the same lines, in the one order of a sorted map.
  exact congrArg (List.flatMap Prod.snd) (OrderedMap.eq_of_mem_iff (hsorted t) (hsorted t') h)

private theorem newline_notMem_treeLines {entries : List (String × Entity)}
    (hl : ∀ entry ∈ entries, OneLineEntry entry) : ∀ l ∈ treeLines entries, '\n' ∉ l := by
  intro l hmem
  obtain ⟨entry, hentry, hline⟩ := List.mem_flatMap.mp hmem
  rcases List.mem_cons.mp hline with rfl | hline
  · exact (hl entry hentry).1
  · rcases List.mem_append.mp hline with hline | hline
    · cases hdis : entry.2.disabled with
      | false => simp [hdis] at hline
      | true =>
        rw [hdis, markerLines_true, List.mem_singleton] at hline
        rw [hline]
        decide
    · obtain ⟨p, hp, rfl⟩ := List.mem_map.mp hline
      have hid := (hl entry hentry).2 p (by simpa using hp)
      simp [partLine, hid, ContentHash.newline_notMem_toPrefixed]

/-- For names without newlines the text determines the lines. -/
theorem treeLines_eq_of_treeText_eq {t t' : Tree} (hl : OneLineNames t) (hl' : OneLineNames t')
    (h : treeText t = treeText t') : treeLines t.toList = treeLines t'.toList := by
  have htext := congrArg String.toList h
  rw [toList_treeText, toList_treeText] at htext
  exact Text.flatMap_terminated_inj (newline_notMem_treeLines hl) (newline_notMem_treeLines hl')
    htext

/-! ## Two trees with the same lines -/

/-- The lines of two entities have the same reading. -/
def SameEntry (entry entry' : String × Entity) : Prop :=
  entry.1 = entry'.1 ∧ entry.2.disabled = entry'.2.disabled ∧ partLines entry.2 = partLines entry'.2

/-- The two lists part at a line `disabled` that marks an entity of the first and is the path of an
entity of the second. -/
def Diverges (entries entries' : List (String × Entity)) : Prop :=
  ∃ pre pre' path e e₀ d rest rest',
    entries = pre ++ (path, e) :: rest ∧ entries' = pre' ++ (path, e₀) :: (marker, d) :: rest' ∧
      e.disabled = true ∧ e₀.disabled = false ∧ e₀.parts = [] ∧
      partLines e ++ treeLines rest = markerLines d.disabled ++ (partLines d ++ treeLines rest')

theorem Diverges.cons {entries entries' : List (String × Entity)} (h : Diverges entries entries')
    (entry entry' : String × Entity) : Diverges (entry :: entries) (entry' :: entries') := by
  obtain ⟨pre, pre', path, e, e₀, d, rest, rest', rfl, rfl, h⟩ := h
  exact ⟨entry :: pre, entry' :: pre', path, e, e₀, d, rest, rest', rfl, rfl, h⟩

private theorem nul_mem_of_mem_partLines {e : Entity} {l : List Char} (h : l ∈ partLines e) :
    '\x00' ∈ l := by
  obtain ⟨p, -, rfl⟩ := List.mem_map.mp h
  simp [partLine]

private theorem nul_notMem_head_treeLines {entries : List (String × Entity)}
    (hn : ∀ entry ∈ entries, NulFree entry.1) : ∀ l ∈ (treeLines entries).head?, '\x00' ∉ l := by
  cases entries with
  | nil => simp
  | cons entry entries =>
    intro l hl
    obtain rfl : entry.1.toList = l := by simpa using hl
    exact hn entry (by simp)

/-- The part lines end where the next path begins. -/
private theorem partLines_append_inj {e e' : Entity} {entries entries' : List (String × Entity)}
    (hn : ∀ entry ∈ entries, NulFree entry.1) (hn' : ∀ entry ∈ entries', NulFree entry.1)
    (h : partLines e ++ treeLines entries = partLines e' ++ treeLines entries') :
    partLines e = partLines e' ∧ treeLines entries = treeLines entries' :=
  Text.append_inj_of_head (p := fun l => decide ('\x00' ∈ l))
    (fun _ hl => decide_eq_true (nul_mem_of_mem_partLines hl))
    (fun _ hl => decide_eq_true (nul_mem_of_mem_partLines hl))
    (fun l hl => decide_eq_false (nul_notMem_head_treeLines hn l hl))
    (fun l hl => decide_eq_false (nul_notMem_head_treeLines hn' l hl)) h

/-- Where one list continues with the marker, the other has no part and an entity named
`disabled`. -/
private theorem marker_path_of_lines_eq {e : Entity} {entries : List (String × Entity)}
    {lines : List (List Char)} (h : marker.toList :: lines = partLines e ++ treeLines entries) :
    e.parts = [] ∧ ∃ d rest, entries = (marker, d) :: rest ∧
      lines = markerLines d.disabled ++ (partLines d ++ treeLines rest) := by
  have hparts : partLines e = [] := by
    -- A part line has a NUL, the marker has none, so the line is the next path.
    cases hp : partLines e with
    | nil => rfl
    | cons l ls =>
      have hnul : '\x00' ∈ l := nul_mem_of_mem_partLines (e := e) (by simp [hp])
      rw [hp, List.cons_append, List.cons.injEq] at h
      rw [← h.1] at hnul
      exact absurd hnul (by decide)
  refine ⟨partLines_eq_nil.mp hparts, ?_⟩
  rw [hparts, List.nil_append] at h
  cases entries with
  | nil => simp at h
  | cons entry rest =>
    rw [treeLines_cons, List.cons.injEq, String.toList_inj] at h
    exact ⟨entry.2, rest, by rw [h.1], h.2⟩

/-- Two lists of entities with the same lines agree entry by entry or part at a marker. -/
theorem sameEntry_or_diverges {entries entries' : List (String × Entity)}
    (hn : ∀ entry ∈ entries, NulFree entry.1) (hn' : ∀ entry ∈ entries', NulFree entry.1)
    (h : treeLines entries = treeLines entries') :
    List.Forall₂ SameEntry entries entries' ∨ Diverges entries entries' ∨
      Diverges entries' entries := by
  induction entries generalizing entries' with
  | nil =>
    cases entries' with
    | nil => exact .inl .nil
    | cons entry' entries' => simp at h
  | cons entry entries ih =>
    cases entries' with
    | nil => simp at h
    | cons entry' entries' =>
      obtain ⟨path, e⟩ := entry
      obtain ⟨path', e'⟩ := entry'
      rw [treeLines_cons, treeLines_cons, List.cons.injEq, String.toList_inj] at h
      -- Both lists start with a path. If the flags differ, the marker of one side is a path of the
      -- other; if they agree, the part lines end together and the tails have the same lines.
      obtain ⟨rfl, h⟩ := h
      have htail := (List.forall_mem_cons.mp hn).2
      have htail' := (List.forall_mem_cons.mp hn').2
      cases hd : e.disabled <;> cases hd' : e'.disabled <;>
        simp only [hd, hd', markerLines_true, markerLines_false, List.nil_append,
          List.cons_append] at h
      case false.true =>
        obtain ⟨hparts, d, rest, rfl, hrest⟩ := marker_path_of_lines_eq h.symm
        exact .inr (.inr ⟨[], [], path, e', e, d, entries', rest, rfl, rfl, hd', hd, hparts, hrest⟩)
      case true.false =>
        obtain ⟨hparts, d, rest, rfl, hrest⟩ := marker_path_of_lines_eq h
        exact .inr (.inl ⟨[], [], path, e, e', d, entries, rest, rfl, rfl, hd, hd', hparts, hrest⟩)
      all_goals
        have hlines : partLines e ++ treeLines entries = partLines e' ++ treeLines entries' := by
          simpa using h
        have hsplit := partLines_append_inj htail htail' hlines
        rcases ih htail htail' hsplit.2 with hsame | hdiv | hdiv
        · exact .inl (.cons ⟨rfl, by rw [hd, hd'], hsplit.1⟩ hsame)
        · exact .inr (.inl (hdiv.cons _ _))
        · exact .inr (.inr (hdiv.cons _ _))

/-! ## Entries with the same reading -/

private theorem partLine_inj {p q : Part} (hp : NulFree p.id) (hq : NulFree q.id)
    (h : partLine p = partLine q) : p.id = q.id ∧ p.content = q.content := by
  obtain ⟨hid, hcontent⟩ := Text.append_cons_inj hp hq h
  exact ⟨String.toList_inj.mp hid, ContentHash.toPrefixed_injective (String.toList_inj.mp hcontent)⟩

private theorem contentOf_eq_some_iff {e : Entity} (hids : (e.parts.map (·.id)).Nodup) {id : String}
    {c : ContentHash} : contentOf e id = some c ↔ ∃ p ∈ e.parts, p.id = id ∧ p.content = c := by
  constructor
  · intro h
    obtain ⟨p, hfind, rfl⟩ := Option.map_eq_some_iff.mp h
    exact ⟨p, List.mem_of_find?_eq_some hfind, by simpa using List.find?_some hfind, rfl⟩
  · rintro ⟨p, hp, rfl, rfl⟩
    cases hfind : e.parts.find? fun q => q.id = p.id with
    | none => simpa using List.find?_eq_none.mp hfind p hp
    | some q =>
      -- Distinct ids: what is found under the id of `p` is `p`.
      have hq : q = p :=
        List.inj_on_of_nodup_map hids (List.mem_of_find?_eq_some hfind) hp
          (by simpa using List.find?_some hfind)
      simp [contentOf, hfind, hq]

private theorem contentOf_le_of_partLines_eq {path path' : String} {e e' : Entity}
    (he : ResolvableEntry (path, e)) (he' : ResolvableEntry (path', e'))
    (h : partLines e = partLines e') {id : String} {c : ContentHash}
    (hc : contentOf e id = some c) : contentOf e' id = some c := by
  rw [contentOf_eq_some_iff he.2.2] at hc
  rw [contentOf_eq_some_iff he'.2.2]
  obtain ⟨p, hp, rfl, rfl⟩ := hc
  have hline : partLine p ∈ partLines e' := h ▸ List.mem_map.mpr ⟨p, by simpa using hp, rfl⟩
  obtain ⟨q, hq, heq⟩ := List.mem_map.mp hline
  have hq : q ∈ e'.parts := by simpa using hq
  exact ⟨q, hq, partLine_inj (he'.2.1 q hq) (he.2.1 p hp) heq⟩

/-- Entries with the same reading ask for the same. -/
theorem desiredState_eq_of_sameEntry {entry entry' : String × Entity} (he : ResolvableEntry entry)
    (he' : ResolvableEntry entry') (h : SameEntry entry entry') :
    desiredState entry.2 = desiredState entry'.2 := by
  obtain ⟨-, hdisabled, hlines⟩ := h
  refine Prod.ext hdisabled (funext fun id => Option.ext fun c => ?_)
  exact ⟨contentOf_le_of_partLines_eq he he' hlines,
    contentOf_le_of_partLines_eq he' he hlines.symm⟩

private theorem get?_map_of_forall₂ {t t' : Tree} (ht : Resolvable t) (ht' : Resolvable t')
    (h : List.Forall₂ SameEntry t.toList t'.toList) {path : String} {e : Entity}
    (he : t.get? path = some e) :
    ∃ e', t'.get? path = some e' ∧ desiredState e = desiredState e' := by
  have hmem : (path, e) ∈ t.toList := Tree.mem_toList.mpr he
  obtain ⟨entry', hmem', hentry⟩ := h.flip.exists_left hmem
  refine ⟨entry'.2, ?_, desiredState_eq_of_sameEntry (ht _ hmem) (ht' _ hmem') hentry⟩
  rw [← Tree.mem_toList, show path = entry'.1 from hentry.1]
  exact hmem'

/-- Trees that agree entry by entry ask for the same. -/
theorem sameDesired_of_forall₂ {t t' : Tree} (ht : Resolvable t) (ht' : Resolvable t')
    (h : List.Forall₂ SameEntry t.toList t'.toList) : SameDesired t t' := by
  have hsymm : List.Forall₂ SameEntry t'.toList t.toList :=
    h.flip.imp fun _ _ hs => ⟨hs.1.symm, hs.2.1.symm, hs.2.2.symm⟩
  intro path
  cases he : t.get? path with
  | some e =>
    obtain ⟨e', he', hstate⟩ := get?_map_of_forall₂ ht ht' h he
    simp [he', hstate]
  | none =>
    cases he' : t'.get? path with
    | none => rfl
    | some e' =>
      obtain ⟨e, hsome, -⟩ := get?_map_of_forall₂ ht' ht hsymm he'
      rw [he] at hsome
      cases hsome

/-! ## Where the marker can be read in two ways -/

/-- The entities around one entity of a tree, and the entity at its path. -/
private theorem of_toList_eq {t : Tree} {pre rest : List (String × Entity)} {path : String}
    {e : Entity} (ht : t.toList = pre ++ (path, e) :: rest) :
    (∀ entry ∈ pre, entry.1 < path) ∧ (∀ entry ∈ rest, path < entry.1) ∧ t.get? path = some e := by
  have hsorted := t.pairwise_lt_toList
  rw [ht, List.pairwise_append, List.pairwise_cons] at hsorted
  refine ⟨fun entry hentry => hsorted.2.2 entry hentry (path, e) (by simp), hsorted.2.1.1, ?_⟩
  rw [← Tree.mem_toList, ht]
  simp

/-- A path that falls between two neighbours is not in the tree. -/
private theorem get?_eq_none_of_between {t : Tree} {pre rest : List (String × Entity)}
    {path path' : String} {e : Entity} (ht : t.toList = pre ++ (path, e) :: rest)
    (hpath : path < path') (hrest : ∀ entry ∈ rest, path' < entry.1) : t.get? path' = none := by
  cases hget : t.get? path' with
  | none => rfl
  | some e' =>
    have hmem := Tree.mem_toList.mpr hget
    rw [ht, List.mem_append, List.mem_cons] at hmem
    rcases hmem with hmem | hmem | hmem
    · exact absurd ((of_toList_eq ht).1 _ hmem) hpath.asymm
    · exact absurd (congrArg Prod.fst hmem) hpath.ne'
    · exact absurd (hrest _ hmem) (lt_irrefl _)

/-- An entity below `disabled` with only larger ones behind it is the last one below it. -/
theorem lastBelowMarker_eq {t : Tree} {pre rest : List (String × Entity)} {path : String}
    {e : Entity} (ht : t.toList = pre ++ (path, e) :: rest) (hpath : path < marker)
    (hrest : ∀ entry ∈ rest.head?, marker ≤ entry.1) : lastBelowMarker t = some e := by
  have hbelow : ∀ entry ∈ pre ++ [(path, e)], decide (entry.1 < marker) = true := by
    intro entry hentry
    rw [List.mem_append, List.mem_singleton] at hentry
    rcases hentry with hentry | rfl
    · exact decide_eq_true (((of_toList_eq ht).1 entry hentry).trans hpath)
    · exact decide_eq_true hpath
  have habove : ∀ entry ∈ rest.head?, decide (entry.1 < marker) = false :=
    fun entry hentry => decide_eq_false (not_lt.mpr (hrest entry hentry))
  rw [lastBelowMarker, ht, List.append_cons, Text.takeWhile_append_of_head hbelow habove]
  simp

/-- The tree in which the line is a path of its own is ambiguous. -/
theorem not_markerUnambiguous_of_path {t : Tree} {entries : List (String × Entity)}
    (h : Diverges entries t.toList) : ¬ MarkerUnambiguous t := by
  obtain ⟨-, pre, path, -, e₀, d, -, rest, -, ht, -, henabled, hparts, -⟩ := h
  have hpath : path < marker := (of_toList_eq ht).2.1 (marker, d) (by simp)
  have hlast : lastBelowMarker t = some e₀ := lastBelowMarker_eq ht hpath (by simp)
  rw [List.append_cons] at ht
  intro hunamb
  -- The entity in front of `disabled` is enabled and has no parts.
  have := hunamb e₀ hlast
  simp [(of_toList_eq ht).2.2, hparts, henabled] at this

/-- The tree in which the line is a marker is ambiguous. -/
theorem not_markerUnambiguous_of_marker {t t' : Tree} (ht : Resolvable t) (ht' : Resolvable t')
    (h : Diverges t.toList t'.toList) : ¬ MarkerUnambiguous t := by
  obtain ⟨pre, pre', path, e, e₀, d, rest, rest', hl, hl', hdis, -, -, hlines⟩ := h
  have hpath : path < marker := (of_toList_eq hl').2.1 (marker, d) (by simp)
  -- In the other tree `path` stands before `disabled`, and everything behind that is above it.
  have hrest' : ∀ entry ∈ rest', marker < entry.1 :=
    (of_toList_eq (hl'.trans (List.append_cons _ _ _))).2.1
  have hn : ∀ entry ∈ rest, NulFree entry.1 := fun x hx => (ht x (by simp [hl, hx])).1
  have hn' : ∀ entry ∈ rest', NulFree entry.1 := fun x hx => (ht' x (by simp [hl', hx])).1
  intro hunamb
  cases hd : d.disabled with
  | false =>
    -- The entity's parts are those of the other tree's `disabled`, and both go on with one path.
    obtain ⟨-, hlines⟩ := partLines_append_inj hn hn' (by simpa [hd] using hlines)
    have hrest : ∀ entry ∈ rest, marker < entry.1 := by
      cases rest with
      | nil => simp
      | cons x rest =>
        cases rest' with
        | nil => simp at hlines
        | cons x' rest' =>
          rw [treeLines_cons, treeLines_cons, List.cons.injEq, String.toList_inj] at hlines
          have hx : marker < x.1 := hlines.1 ▸ hrest' x' (by simp)
          intro entry hentry
          rcases List.mem_cons.mp hentry with rfl | hentry
          · exact hx
          · exact hx.trans ((of_toList_eq (hl.trans (List.append_cons _ _ _))).2.1 entry hentry)
    have hlast : lastBelowMarker t = some e :=
      lastBelowMarker_eq hl hpath fun x hx => le_of_lt (hrest x (List.mem_of_mem_head? hx))
    have := hunamb e hlast
    simp [get?_eq_none_of_between hl hpath hrest, hdis] at this
  | true =>
    -- The other tree's `disabled` is disabled too, so this tree goes on with that path.
    rw [hd, markerLines_true] at hlines
    obtain ⟨hparts, d', rest₂, rfl, hnext⟩ := marker_path_of_lines_eq hlines.symm
    have hlast : lastBelowMarker t = some e := lastBelowMarker_eq hl hpath (by simp)
    have hget := (of_toList_eq (hl.trans (List.append_cons _ _ _))).2.2
    have hd' : d'.disabled = true := by
      have := hunamb e hlast
      simpa [hget, hparts, hdis] using this
    -- A third line `disabled` would be a second entity of that path.
    rw [hd', markerLines_true] at hnext
    obtain ⟨-, d'', rest₃, rfl, -⟩ := marker_path_of_lines_eq hnext.symm
    exact lt_irrefl marker (hrest' (marker, d'') (by simp))

/-! ## The other reading -/

/-- The entities around the place of an entity named `disabled`, with the one there, if any. -/
def around (pre : List (String × Entity)) (path : String) (e : Entity) (atMarker : Option Entity)
    (post : List (String × Entity)) : List (String × Entity) :=
  pre ++ (path, e) :: (atMarker.toList.map (Prod.mk marker) ++ post)

/-- A tree with an entity below `disabled` is cut at that place. -/
theorem exists_around_of_lastBelowMarker {t : Tree} {e : Entity} (h : lastBelowMarker t = some e) :
    ∃ pre path post, t.toList = around pre path e (t.get? marker) post ∧ path < marker ∧
      ∀ entry ∈ post, marker < entry.1 := by
  let below : String × Entity → Bool := fun entry => entry.1 < marker
  obtain ⟨last, hlast, rfl⟩ := Option.map_eq_some_iff.mp h
  obtain ⟨pre, hpre⟩ := List.getLast?_eq_some_iff.mp hlast
  have hsplit : t.toList = pre ++ last :: t.toList.dropWhile below := by
    rw [List.append_cons, ← hpre, List.takeWhile_append_dropWhile]
  have hmem : last ∈ t.toList.takeWhile below := hpre ▸ by simp
  have hbelow : below last = true := List.mem_takeWhile_imp hmem
  have hpath : last.1 < marker := of_decide_eq_true hbelow
  -- Behind the last entity below `disabled` comes nothing, `disabled` itself, or a larger path.
  have hfirst := List.head?_dropWhile_not below t.toList
  cases hdrop : t.toList.dropWhile below with
  | nil =>
    have hnone := get?_eq_none_of_between hsplit hpath (by simp [hdrop])
    exact ⟨pre, last.1, [], by rw [hsplit, hnone, hdrop, around]; rfl, hpath, by simp⟩
  | cons entry rest =>
    rw [hdrop] at hsplit hfirst
    have hle : marker ≤ entry.1 := not_lt.mp (of_decide_eq_false hfirst)
    have hrest := (of_toList_eq (hsplit.trans (List.append_cons _ _ _))).2
    rcases hle.eq_or_lt with heq | hlt
    · refine ⟨pre, last.1, rest, ?_, hpath, heq ▸ hrest.1⟩
      rw [hsplit, heq, hrest.2, around]
      simp [heq]
    · have habove : ∀ x ∈ entry :: rest, marker < x.1 :=
        List.forall_mem_cons.mpr ⟨hlt, fun x hx => hlt.trans (hrest.1 x hx)⟩
      refine ⟨pre, last.1, entry :: rest, ?_, hpath, habove⟩
      rw [hsplit, get?_eq_none_of_between hsplit hpath habove, around]
      rfl

/-- A tree with the same lines in which the place of an entity named `disabled` is filled
differently: another desired state with the same text. -/
theorem exists_other_reading {t : Tree} {pre post : List (String × Entity)} {path : String}
    {e : Entity} (e' : Entity) (o' : Option Entity)
    (ht : t.toList = around pre path e (t.get? marker) post)
    (hpath : path < marker) (hpost : ∀ entry ∈ post, marker < entry.1)
    (hres : Resolvable t) (hone : OneLineNames t)
    (hentry : ∀ entry ∈ (path, e') :: o'.toList.map (Prod.mk marker),
      ResolvableEntry entry ∧ OneLineEntry entry)
    (hlines : treeLines ((path, e) :: (t.get? marker).toList.map (Prod.mk marker)) =
      treeLines ((path, e') :: o'.toList.map (Prod.mk marker)))
    (hne : o'.map (·.disabled) ≠ (t.get? marker).map (·.disabled)) :
    ∃ t', Resolvable t' ∧ OneLineNames t' ∧ treeText t' = treeText t ∧ ¬ SameDesired t' t := by
  have hsub : ∀ entry, entry ∈ pre ∨ entry ∈ post → entry ∈ t.toList := by
    rintro entry (h | h) <;> simp [ht, around, h]
  -- The new list is ascending: the marker's place is between `path` and `post`.
  have hsorted : (around pre path e' o' post).Pairwise fun a b => a.1 < b.1 := by
    have hold := t.pairwise_lt_toList
    rw [ht, around, List.pairwise_append, List.pairwise_cons, List.pairwise_append] at hold
    obtain ⟨hpre, ⟨-, -, hpost', -⟩, hcross⟩ := hold
    have hbelow : ∀ a ∈ pre, a.1 < path := fun a ha => hcross a ha (path, e) (by simp)
    rw [around, List.pairwise_append, List.pairwise_cons, List.pairwise_append]
    cases o' with
    | none =>
      simp only [Option.toList_none, List.map_nil, List.nil_append, List.mem_cons,
        forall_eq_or_imp, List.not_mem_nil, false_imp_iff, implies_true, List.Pairwise.nil]
      exact ⟨hpre, ⟨fun b hb => hpath.trans (hpost b hb), trivial, hpost', trivial⟩, fun a ha =>
        ⟨hbelow a ha, fun b hb => (hbelow a ha).trans (hpath.trans (hpost b hb))⟩⟩
    | some d =>
      simp only [Option.toList_some, List.map_cons, List.map_nil, List.cons_append,
        List.nil_append, List.mem_cons, forall_eq_or_imp, List.not_mem_nil, false_imp_iff,
        implies_true, and_true, List.pairwise_singleton, true_and]
      exact ⟨hpre, ⟨⟨hpath, fun b hb => hpath.trans (hpost b hb)⟩, hpost', hpost⟩, fun a ha =>
        ⟨hbelow a ha, (hbelow a ha).trans hpath,
          fun b hb => (hbelow a ha).trans (hpath.trans (hpost b hb))⟩⟩
  have hlist := Tree.toList_ofList hsorted
  have hall : ∀ entry ∈ around pre path e' o' post, ResolvableEntry entry ∧ OneLineEntry entry := by
    intro entry hmem
    rw [around, ← List.cons_append, List.mem_append, List.mem_append] at hmem
    rcases hmem with hmem | hmem | hmem
    · exact ⟨hres entry (hsub entry (.inl hmem)), hone entry (hsub entry (.inl hmem))⟩
    · exact hentry entry hmem
    · exact ⟨hres entry (hsub entry (.inr hmem)), hone entry (hsub entry (.inr hmem))⟩
  refine ⟨Tree.ofList (around pre path e' o' post), fun entry h => (hall entry (hlist ▸ h)).1,
    fun entry h => (hall entry (hlist ▸ h)).2, treeText_eq_of_treeLines_eq ?_, fun hsame => hne ?_⟩
  · rw [hlist, ht, around, around, ← List.cons_append, ← List.cons_append, treeLines_append,
      treeLines_append, treeLines_append, treeLines_append, hlines]
  · -- The two trees differ at the path `disabled`.
    have hget : (Tree.ofList (around pre path e' o' post)).get? marker = o' := by
      cases o' with
      | none => exact get?_eq_none_of_between (hlist.trans (by rw [around]; rfl)) hpath hpost
      | some d => exact (of_toList_eq (hlist.trans (List.append_cons _ _ _))).2.2
    have := congrArg (Option.map Prod.fst) (hsame marker)
    simpa [hget, desiredState, Function.comp_def] using this

/-- A tree whose marker is ambiguous shares its text with a tree that asks for something else. -/
theorem exists_other_reading_of_ambiguous {t : Tree} (hres : Resolvable t) (hone : OneLineNames t)
    (hamb : ¬ MarkerUnambiguous t) :
    ∃ t', Resolvable t' ∧ OneLineNames t' ∧ treeText t' = treeText t ∧ ¬ SameDesired t' t := by
  simp only [MarkerUnambiguous, Option.mem_def, not_forall] at hamb
  obtain ⟨e, hlast, hamb⟩ := hamb
  obtain ⟨pre, path, post, ht, hpath, hpost⟩ := exists_around_of_lastBelowMarker hlast
  have he : (path, e) ∈ t.toList := by simp [ht, around]
  have hmarker : NulFree marker ∧ '\n' ∉ marker.toList := by decide
  cases hget : t.get? marker with
  | none =>
    -- A disabled entity, read as an enabled one without parts followed by `disabled`.
    have hdis : e.disabled = true := by simpa [hget] using hamb
    refine exists_other_reading { e with disabled := false, parts := [] }
      (some { e with disabled := false }) ht hpath hpost hres hone ?_ ?_ (by simp [hget])
    · have hr := hres _ he
      have ho := hone _ he
      simp only [Option.toList_some, List.map_cons, List.map_nil, List.forall_mem_cons,
        List.not_mem_nil, false_imp_iff, implies_true, and_true]
      exact ⟨⟨⟨hr.1, by simp, by simp⟩, ho.1, by simp⟩, ⟨hmarker.1, hr.2⟩, hmarker.2, ho.2⟩
    · simp [hget, hdis, partLines, sortOn]
  | some d =>
    rw [hget] at hamb
    have hd : (marker, d) ∈ t.toList := Tree.mem_toList.mpr hget
    -- `e` has no parts, so the lines are a path, at most a marker, `disabled`, at most a marker.
    obtain ⟨hparts, hflags⟩ : e.parts = [] ∧ ¬ (e.disabled = true ∧ d.disabled = true) := by
      simpa only [not_or, not_not] using hamb
    have hr := hres _ hd
    have ho := hone _ hd
    by_cases hboth : e.disabled = false ∧ d.disabled = false
    · -- The path `disabled`, read as a marker.
      refine exists_other_reading { e with disabled := true, parts := d.parts } none
        ht hpath hpost hres hone ?_ ?_ (by simp [hget])
      · simp only [Option.toList_none, List.map_nil, List.forall_mem_cons, List.not_mem_nil,
          false_imp_iff, implies_true, and_true]
        exact ⟨⟨(hres _ he).1, hr.2⟩, (hone _ he).1, ho.2⟩
      · simp [hget, hboth.1, hboth.2, partLines, sortOn, hparts]
    · -- One of the two is disabled: the marker may stand before or after the path.
      refine exists_other_reading { e with disabled := d.disabled }
        (some { d with disabled := e.disabled }) ht hpath hpost hres hone ?_ ?_ ?_
      · simp only [Option.toList_some, List.map_cons, List.map_nil, List.forall_mem_cons,
          List.not_mem_nil, false_imp_iff, implies_true, and_true]
        exact ⟨⟨hres (path, e) he, hone (path, e) he⟩, hr, ho⟩
      · rw [hget]
        cases he : e.disabled <;> cases hd : d.disabled <;>
          simp_all [partLines, sortOn]
      · rw [hget]
        cases he : e.disabled <;> cases hd : d.disabled <;> simp_all

/-- Among trees whose names are single lines, the hash of a tree stands for its desired state alone
iff a line `disabled` of its text has only one reading. -/
theorem treeHash_binds_iff (sha : Sha256) (t : Tree) (hres : Resolvable t) (hone : OneLineNames t)
    (hsha : CollisionFreeAt sha (treeText t).toByteArray) :
    (∀ t', Resolvable t' → OneLineNames t' → treeHash sha t' = treeHash sha t → SameDesired t' t) ↔
      MarkerUnambiguous t := by
  constructor
  · intro hbinds
    by_contra hamb
    obtain ⟨t', hres', hone', htext, hdiff⟩ := exists_other_reading_of_ambiguous hres hone hamb
    exact hdiff (hbinds t' hres' hone' (by rw [treeHash, treeHash, htext]))
  · intro hunamb t' hres' hone' heq
    have htext := eq_of_hashText_eq hsha heq
    -- One text, so the same lines; either the readings agree, or one of the trees diverges.
    have hlines := treeLines_eq_of_treeText_eq hone' hone htext
    rcases sameEntry_or_diverges (fun x hx => (hres' x hx).1) (fun x hx => (hres x hx).1) hlines
      with hsame | hdiv | hdiv
    · exact sameDesired_of_forall₂ hres' hres hsame
    · exact absurd hunamb (not_markerUnambiguous_of_path hdiv)
    · exact absurd hunamb (not_markerUnambiguous_of_marker hres hres' hdiv)

/-- The hash of a tree with one enabled component stands for that tree alone. -/
theorem treeHash_binds_kernel :
    let t := Tree.ofList [("vm1", { parts := [⟨"file", "kernel", ⟨Vector.replicate 32 7⟩⟩] })]
    let digest : ContentHash := ⟨#v[100, 192, 110, 105, 128, 241, 38, 114, 191, 70, 159, 25, 159,
      102, 248, 46, 190, 165, 204, 194, 85, 7, 250, 7, 144, 83, 142, 246, 78, 110, 99, 158]⟩
    let sha := Sha256.ofDigests [(treeText t, digest)]
    MarkerUnambiguous t ∧
      ∀ t', Resolvable t' → OneLineNames t' → treeHash sha t' = treeHash sha t →
        SameDesired t' t := by
  intro t digest sha
  have hsha : CollisionFreeAt sha (treeText t).toByteArray :=
    collisionFreeAt_ofDigests (by decide) (by simp)
  have hunamb : MarkerUnambiguous t := by
    intro e he
    have hnone : t.get? marker = none := by decide
    have henabled : ∀ e ∈ lastBelowMarker t, e.disabled = false := by decide
    rw [hnone]
    exact henabled e he
  exact ⟨hunamb, (treeHash_binds_iff sha t (by decide) (by decide) hsha).mpr hunamb⟩

/-- A disabled entity and a part-less one followed by an entity named `disabled` have one hash, and
so have an entity with a newline in its path and two entities. -/
theorem treeHash_not_binding :
    let parts : List Part := [⟨"file", "kernel", ⟨Vector.replicate 32 7⟩⟩]
    let pairs := [
      (Tree.ofList [("adas", { disabled := true, parts := parts })],
        Tree.ofList [("adas", {}), ("disabled", { parts := parts })]),
      (Tree.ofList [("adas\nvm1", { parts := parts })],
        Tree.ofList [("adas", {}), ("vm1", { parts := parts })])]
    ∀ pair ∈ pairs, Resolvable pair.1 ∧ Resolvable pair.2 ∧
      (∀ sha, treeHash sha pair.1 = treeHash sha pair.2) ∧ ¬ SameDesired pair.1 pair.2 := by
  have hdiff : ∀ {t t' : Tree} (path : String),
      (t.get? path).isSome ≠ (t'.get? path).isSome → ¬ SameDesired t t' := by
    intro t t' path hne hsame
    exact hne (by simpa using congrArg Option.isSome (hsame path))
  intro parts pairs pair hpair
  obtain rfl | rfl : _ ∨ _ := by simpa [pairs] using hpair
  · exact ⟨by decide, by decide, fun sha => congrArg (hashText sha) (by decide),
      hdiff "disabled" (by decide)⟩
  · exact ⟨by decide, by decide, fun sha => congrArg (hashText sha) (by decide),
      hdiff "vm1" (by decide)⟩

/-! ## Order of the parts -/

/-- The entity asks for the same as the other one: both are disabled or not, and their parts have
the same ids and contents, in some order. Kind, version, update mode, observed state and the kinds
of the parts may be others. -/
def Rearranged (e e' : Entity) : Prop :=
  e.disabled = e'.disabled ∧
    (e.parts.map fun p => (p.id, p.content)).Perm (e'.parts.map fun p => (p.id, p.content))

theorem Rearranged.symm {e e' : Entity} (h : Rearranged e e') : Rearranged e' e :=
  ⟨h.1.symm, h.2.symm⟩

theorem Rearranged.nodup_iff {e e' : Entity} (h : Rearranged e e') :
    (e.parts.map (·.id)).Nodup ↔ (e'.parts.map (·.id)).Nodup := by
  simpa [Function.comp_def] using (h.2.map Prod.fst).nodup_iff

/-- A line shows only the id and the content, and the sort looks only at the id. -/
theorem partLines_eq_map_sortOn (e : Entity) :
    partLines e = (sortOn Prod.fst (e.parts.map fun p => (p.id, p.content))).map
      fun p => p.1.toList ++ '\x00' :: p.2.toPrefixed.toList := by
  rw [← map_sortOn, List.map_map]
  rfl

theorem Rearranged.entityLines_eq {path : String} {e e' : Entity} (h : Rearranged e e')
    (hids : (e.parts.map (·.id)).Nodup) : entityLines (path, e) = entityLines (path, e') := by
  have hkeys : ((e.parts.map fun p => (p.id, p.content)).map Prod.fst).Nodup := by
    rwa [List.map_map]
  rw [entityLines, entityLines, h.1, partLines_eq_map_sortOn, partLines_eq_map_sortOn,
    sortOn_eq_of_perm h.2 hkeys]

/-- The two trees have the same paths, and at each of them entities that ask for the same. -/
def RearrangedTree (t t' : Tree) : Prop :=
  ∀ path, Option.Rel Rearranged (t.get? path) (t'.get? path)

theorem RearrangedTree.symm {t t' : Tree} (h : RearrangedTree t t') : RearrangedTree t' t := by
  intro path
  have hrel := h path
  cases hget : t.get? path <;> cases hget' : t'.get? path <;> rw [hget, hget'] at hrel
  · exact .none
  · cases hrel
  · cases hrel
  · cases hrel with
    | some hentity => exact .some hentity.symm

theorem RearrangedTree.exists_rearranged {t t' : Tree} (h : RearrangedTree t t') {path : String}
    {e : Entity} (hget : t.get? path = some e) :
    ∃ e', t'.get? path = some e' ∧ Rearranged e e' := by
  have hrel := h path
  rw [hget] at hrel
  cases hget' : t'.get? path with
  | none =>
    rw [hget'] at hrel
    cases hrel
  | some e' =>
    rw [hget'] at hrel
    cases hrel with
    | some hentity => exact ⟨e', rfl, hentity⟩

theorem RearrangedTree.distinctIds {t t' : Tree} (h : RearrangedTree t t') (hids : t.DistinctIds) :
    t'.DistinctIds := by
  intro path e' hget'
  obtain ⟨e, hget, hentity⟩ := h.symm.exists_rearranged hget'
  exact hentity.nodup_iff.mpr (hids path e hget)

theorem RearrangedTree.mem_pathLines {t t' : Tree} (h : RearrangedTree t t')
    (hids : t.DistinctIds) {line : String × List (List Char)}
    (hline : line ∈ t.toList.map pathLines) : line ∈ t'.toList.map pathLines := by
  obtain ⟨⟨path, e⟩, hmem, rfl⟩ := List.mem_map.mp hline
  have hget : t.get? path = some e := Tree.mem_toList.mp hmem
  obtain ⟨e', hget', hentity⟩ := h.exists_rearranged hget
  refine List.mem_map.mpr ⟨(path, e'), Tree.mem_toList.mpr hget', ?_⟩
  rw [pathLines, pathLines, hentity.entityLines_eq (hids path e hget)]

/-- With distinct part ids, neither of the two identities depends on the order of the parts, and a
tree hash depends on nothing but paths, disabled flags, part ids and contents. -/
theorem identities_ignore_part_order (sha : Sha256) :
    (∀ (entityKind : String) (parts parts' : List NewPart), (parts.map (·.id)).Nodup →
      parts.Perm parts' →
        componentIdentity sha entityKind parts = componentIdentity sha entityKind parts') ∧
      ∀ tree tree' : Tree, tree.DistinctIds → RearrangedTree tree tree' →
        treeHash sha tree = treeHash sha tree' := by
  constructor
  · intro entityKind parts parts' hids hperm
    rw [componentIdentity, componentIdentity, componentText, componentText,
      sortOn_eq_of_perm hperm hids]
  · intro tree tree' hids h
    refine congrArg (hashText sha) (treeText_eq_of_mem_pathLines fun line => ⟨?_, ?_⟩)
    · exact h.mem_pathLines hids
    · exact h.symm.mem_pathLines (h.distinctIds hids)

/-- Two parts in both orders, as the release has them and as a device reports them. -/
theorem identities_ignore_part_order_two_parts :
    let content : ContentHash := ⟨Vector.replicate 32 7⟩
    let kernel : NewPart := ⟨"kernel", "file", content⟩
    let rootfs : NewPart := ⟨"rootfs", "file", content⟩
    let part (kind : String) (p : NewPart) : Part := ⟨kind, p.id, p.content⟩
    let released : Entity := { kind := "vm", parts := [part "file" kernel, part "file" rootfs] }
    let reported : Entity :=
      { parts := [part "blob" rootfs, part "blob" kernel], adminDisabled := some false }
    ∀ sha,
      treeHash sha (.ofList [("vm1", released)]) = treeHash sha (.ofList [("vm1", reported)]) ∧
      componentIdentity sha "vm" [kernel, rootfs] =
        componentIdentity sha "vm" [rootfs, kernel] := by
  intro content kernel rootfs part released reported sha
  obtain ⟨hcomponent, htree⟩ := identities_ignore_part_order sha
  have hrearranged :
      RearrangedTree (.ofList [("vm1", released)]) (.ofList [("vm1", reported)]) := by
    intro path
    simp only [Tree.get?, Tree.ofList, OrderedMap.getElem?_ofList, List.reverse_singleton,
      List.lookup_cons, List.lookup_nil]
    cases path == "vm1"
    · exact .none
    · exact .some ⟨rfl, .swap ..⟩
  exact ⟨htree _ _ (Tree.distinctIds_ofList (by decide)) hrearranged,
    hcomponent "vm" _ _ (by decide) (.swap ..)⟩

end SoftwareTower
