import SumoProvision.Foundations.Canonical
import SumoProvision.Foundations.Text
import SumoProvision.Wire.Tree

/-!
# Release identities

The three content identities of the release store, each the content address of a text:

* `componentIdentity`: the entity kind and the parts sorted by id;
* `vehicleIdentity`: the sorted, deduplicated member ids and the disabled ones among them;
* `treeHash`: the resolved tree, entity by entity.

The texts separate their variable-length fields by newlines and NULs and escape nothing. This module
settles what the first two determine. A component's text determines its sorted parts once the kind
is known (`componentText_inj_of_kind`), and fails to separate the kind from the first part id
exactly when a newline can be read as the end of the kind in two ways
(`componentIdentity_faithful_iff`). A vehicle's text determines the set of members and the set of
disabled members (`vehicleText_inj`).
-/

namespace SoftwareTower

open Wire Canonical

/-- A text without NUL characters: what a `TEXT` column can hold. -/
def NulFree (s : String) : Prop :=
  '\x00' ∉ s.toList

instance (s : String) : Decidable (NulFree s) :=
  inferInstanceAs (Decidable (¬ _))

/-! ## Definitions -/

/-- One part of a component release as a request carries it. -/
structure NewPart where
  id : String
  kind : String
  content : ContentHash
  deriving DecidableEq

/-- Both texts of the part are without NUL. -/
def NewPart.NulFree (p : NewPart) : Prop :=
  SoftwareTower.NulFree p.id ∧ SoftwareTower.NulFree p.kind

instance (p : NewPart) : Decidable p.NulFree :=
  inferInstanceAs (Decidable (_ ∧ _))

/-- Append the record of one part to the text of its component. -/
def pushPart (buf : String) (p : NewPart) : String :=
  buf ++ p.id ++ "\x00" ++ p.kind ++ "\x00" ++ p.content.toPrefixed ++ "\n"

/-- The text a component release is identified by. -/
def componentText (entityKind : String) (parts : List NewPart) : String :=
  (sortOn NewPart.id parts).foldl pushPart (entityKind ++ "\n")

/-- A component release's content identity. -/
def componentIdentity (sha : Sha256) (entityKind : String) (parts : List NewPart) : String :=
  hashText sha (componentText entityKind parts)

/-- Ids in decimal, joined by commas. -/
def joinIds (ids : List ℤ) : String :=
  ",".intercalate (ids.map toString)

/-- The text a vehicle release is identified by. The source looks a disabled id up by binary search
in the sorted members, which finds it iff it is one of them. -/
def vehicleText (members disabledMembers : List ℤ) : String :=
  let sorted := canonical members
  -- Ids that are disabled without being members do not count.
  let disabled := canonical (disabledMembers.filter fun d => sorted.contains d)
  if disabled.isEmpty then joinIds sorted
  else joinIds sorted ++ "\ndisabled:" ++ joinIds disabled

/-- A vehicle release's content identity. -/
def vehicleIdentity (sha : Sha256) (members disabledMembers : List ℤ) : String :=
  hashText sha (vehicleText members disabledMembers)

/-- Append the record of one part to the text of a tree. -/
def pushTreePart (buf : String) (p : Part) : String :=
  buf ++ p.id ++ "\x00" ++ p.content.toPrefixed ++ "\n"

/-- Append the records of one entity to the text of a tree. -/
def pushEntity (buf : String) (entry : String × Entity) : String :=
  let buf := buf ++ entry.1 ++ "\n"
  -- The marker is a line like any other; an entity named `disabled` starts with the same line.
  let buf := if entry.2.disabled then buf ++ "disabled\n" else buf
  (sortOn Part.id entry.2.parts).foldl pushTreePart buf

/-- The text a resolved tree is identified by. -/
def treeText (tree : Tree) : String :=
  tree.toList.foldl pushEntity ""

/-- Content-stable canonical hash of a resolved tree. -/
def treeHash (sha : Sha256) (tree : Tree) : String :=
  hashText sha (treeText tree)

/-! ## Component texts -/

/-- The characters of one part's record. -/
def partRecord (p : NewPart) : List Char :=
  p.id.toList ++ '\x00' :: (p.kind.toList ++ '\x00' :: (p.content.toPrefixed.toList ++ ['\n']))

private theorem toList_foldl_pushPart (ps : List NewPart) (buf : String) :
    (ps.foldl pushPart buf).toList = buf.toList ++ ps.flatMap partRecord := by
  induction ps generalizing buf with
  | nil => simp
  | cons p ps ih =>
    rw [List.foldl_cons, ih]
    simp [pushPart, partRecord]

theorem toList_componentText (kind : String) (parts : List NewPart) :
    (componentText kind parts).toList =
      kind.toList ++ '\n' :: (sortOn NewPart.id parts).flatMap partRecord := by
  rw [componentText, toList_foldl_pushPart]
  simp

/-- What follows the id in a record determines kind, content and the rest. -/
private theorem partRecord_tail_inj {p q : NewPart} {r r' : List Char} (hp : p.NulFree)
    (hq : q.NulFree)
    (h : p.kind.toList ++ '\x00' :: (p.content.toPrefixed.toList ++ ['\n']) ++ r =
      q.kind.toList ++ '\x00' :: (q.content.toPrefixed.toList ++ ['\n']) ++ r') :
    p.kind = q.kind ∧ p.content = q.content ∧ r = r' := by
  simp only [List.append_assoc, List.cons_append, List.nil_append] at h
  obtain ⟨hkind, h⟩ := Text.append_cons_inj hp.2 hq.2 h
  -- The content address has a fixed length, so no separator is needed to find its end.
  obtain ⟨hcontent, h⟩ := List.append_inj h (by simp [ContentHash.toPrefixed_length])
  exact ⟨String.toList_inj.mp hkind,
    ContentHash.toPrefixed_injective (String.toList_inj.mp hcontent), by simpa using h⟩

/-- A concatenation of records determines the first part and the rest. -/
private theorem partRecord_append_inj {p q : NewPart} {r r' : List Char} (hp : p.NulFree)
    (hq : q.NulFree) (h : partRecord p ++ r = partRecord q ++ r') : p = q ∧ r = r' := by
  simp only [partRecord, List.append_assoc, List.cons_append] at h
  -- The id ends at the first NUL, wherever its newlines are.
  obtain ⟨hid, h⟩ := Text.append_cons_inj hp.1 hq.1 h
  obtain ⟨hkind, hcontent, hrest⟩ := partRecord_tail_inj hp hq (by simpa using h)
  refine ⟨?_, hrest⟩
  cases p
  cases q
  simp_all [String.toList_inj]

/-- The records of a list of parts determine the list. -/
theorem partRecords_inj {ps qs : List NewPart} (hps : ∀ p ∈ ps, p.NulFree)
    (hqs : ∀ q ∈ qs, q.NulFree) (h : ps.flatMap partRecord = qs.flatMap partRecord) : ps = qs := by
  induction ps generalizing qs with
  | nil =>
    cases qs with
    | nil => rfl
    | cons q qs => simp [partRecord] at h
  | cons p ps ih =>
    cases qs with
    | nil => simp [partRecord] at h
    | cons q qs =>
      rw [List.flatMap_cons, List.flatMap_cons] at h
      obtain ⟨rfl, hrest⟩ := partRecord_append_inj (hps p (by simp)) (hqs q (by simp)) h
      rw [ih (fun p hp => hps p (by simp [hp])) (fun q hq => hqs q (by simp [hq])) hrest]

/-- For one kind, the text determines the parts up to order. -/
theorem componentText_inj_of_kind {kind : String} {ps qs : List NewPart}
    (hps : ∀ p ∈ ps, p.NulFree) (hqs : ∀ q ∈ qs, q.NulFree)
    (h : componentText kind ps = componentText kind qs) : ps.Perm qs := by
  have hl := congrArg String.toList h
  rw [toList_componentText, toList_componentText] at hl
  have hsorted : sortOn NewPart.id ps = sortOn NewPart.id qs :=
    partRecords_inj (by simpa using hps) (by simpa using hqs)
      (List.tail_eq_of_cons_eq (List.append_cancel_left hl))
  exact (perm_sortOn NewPart.id ps).symm.trans (hsorted ▸ perm_sortOn NewPart.id qs)

/-! ## When a component text can be read in two ways -/

/-- The sorted parts of a text with at least one part, and its characters up to the first NUL. -/
private theorem toList_componentText_of_sorted {kind : String} {parts : List NewPart} {p : NewPart}
    {rest : List NewPart} (h : sortOn NewPart.id parts = p :: rest) :
    (componentText kind parts).toList =
      (kind ++ "\n" ++ p.id).toList ++ '\x00' ::
        (p.kind.toList ++ '\x00' :: (p.content.toPrefixed.toList ++ ['\n']) ++
          rest.flatMap partRecord) := by
  rw [toList_componentText, h]
  simp [partRecord]

private theorem nul_notMem_append_newline {s t : String} (hs : NulFree s) (ht : NulFree t) :
    NulFree (s ++ "\n" ++ t) := by
  simp only [NulFree, String.toList_append, List.mem_append, not_or] at *
  exact ⟨⟨hs, by decide⟩, ht⟩

/-- Two component texts are equal only if both have no parts and one kind, or they differ at most in
where the kind ends and the first part id begins. -/
theorem of_componentText_eq {kind kind' : String} {parts parts' : List NewPart}
    (hkind : NulFree kind) (hkind' : NulFree kind') (hparts : ∀ p ∈ parts, p.NulFree)
    (hparts' : ∀ p ∈ parts', p.NulFree)
    (h : componentText kind' parts' = componentText kind parts) :
    (sortOn NewPart.id parts = [] ∧ sortOn NewPart.id parts' = [] ∧ kind' = kind) ∨
      ∃ p p' rest, sortOn NewPart.id parts = p :: rest ∧ sortOn NewPart.id parts' = p' :: rest ∧
        p'.kind = p.kind ∧ p'.content = p.content ∧
        kind' ++ "\n" ++ p'.id = kind ++ "\n" ++ p.id := by
  have hl := congrArg String.toList h
  have hmem : ∀ p ∈ sortOn NewPart.id parts, p.NulFree := by simpa using hparts
  have hmem' : ∀ p ∈ sortOn NewPart.id parts', p.NulFree := by simpa using hparts'
  -- A text with parts contains a NUL, a text without has none.
  have hnil : ∀ {k : String}, NulFree k → '\x00' ∉ k.toList ++ ['\n'] := by
    intro k hk
    simpa [NulFree] using hk
  cases hs : sortOn NewPart.id parts with
  | nil =>
    cases hs' : sortOn NewPart.id parts' with
    | nil =>
      refine .inl ⟨rfl, rfl, ?_⟩
      rw [toList_componentText, toList_componentText, hs, hs'] at hl
      exact String.toList_inj.mp (List.append_cancel_right hl)
    | cons p' rest' =>
      rw [toList_componentText_of_sorted hs', toList_componentText, hs] at hl
      exact absurd (hl ▸ by simp) (hnil hkind)
  | cons p rest =>
    cases hs' : sortOn NewPart.id parts' with
    | nil =>
      rw [toList_componentText_of_sorted hs, toList_componentText, hs'] at hl
      exact absurd (hl.symm ▸ by simp) (hnil hkind')
    | cons p' rest' =>
      have hp := hmem p (by simp [hs])
      have hp' := hmem' p' (by simp [hs'])
      -- Kind and first id together end at the first NUL; the records behind it are determined.
      rw [toList_componentText_of_sorted hs, toList_componentText_of_sorted hs'] at hl
      obtain ⟨hfirst, htail⟩ := Text.append_cons_inj
        (nul_notMem_append_newline hkind' hp'.1) (nul_notMem_append_newline hkind hp.1) hl
      obtain ⟨hk, hc, hrest⟩ := partRecord_tail_inj hp' hp htail
      have hrest' : rest' = rest :=
        partRecords_inj (fun q hq => hmem' q (by simp [hs', hq]))
          (fun q hq => hmem q (by simp [hs, hq])) hrest
      exact .inr ⟨p, p', rest, rfl, by rw [hrest'], hk, hc, String.toList_inj.mp hfirst⟩

/-- The kind ends at only one newline: cutting the text in front of the first NUL at another newline
leaves a first id that does not sort before the second one. -/
def ReadsOneWay (entityKind : String) (parts : List NewPart) : Prop :=
  ∀ p rest, sortOn NewPart.id parts = p :: rest →
    ∀ kind id, kind ++ "\n" ++ id = entityKind ++ "\n" ++ p.id →
      (∀ q ∈ rest.head?, id < q.id) → kind = entityKind

/-- Sorting leaves a list of parts alone whose first id sorts before a sorted rest. -/
private theorem sortOn_cons_of_lt {p : NewPart} {rest : List NewPart}
    (hrest : rest.Pairwise fun a b => a.id < b.id) (hp : ∀ q ∈ rest.head?, p.id < q.id) :
    (p :: rest).Pairwise fun a b => a.id < b.id := by
  rw [List.pairwise_cons]
  refine ⟨?_, hrest⟩
  cases rest with
  | nil => simp
  | cons q rest =>
    have hpq : p.id < q.id := hp q (by simp)
    intro r hr
    rcases List.mem_cons.mp hr with rfl | hr
    · exact hpq
    · exact hpq.trans (List.rel_of_pairwise_cons hrest hr)

/-- A component identity stands for one kind and one set of parts iff its text can be read in only
one way. -/
theorem componentIdentity_faithful_iff (sha : Sha256) (kind : String) (parts : List NewPart)
    (hkind : NulFree kind) (hparts : ∀ p ∈ parts, p.NulFree) (hids : (parts.map (·.id)).Nodup)
    (hsha : CollisionFreeAt sha (componentText kind parts).toByteArray) :
    (∀ kind' parts', NulFree kind' → (∀ p ∈ parts', p.NulFree) → (parts'.map (·.id)).Nodup →
      componentIdentity sha kind' parts' = componentIdentity sha kind parts →
        kind' = kind ∧ parts'.Perm parts) ↔
      ReadsOneWay kind parts := by
  constructor
  · intro hfaithful p rest hsorted k i hcut hlt
    have hmem : ∀ q ∈ p :: rest, q ∈ parts := fun q hq => mem_sortOn.mp (hsorted ▸ hq)
    -- The other reading: the same records with the first id cut elsewhere.
    let other : List NewPart := { p with id := i } :: rest
    have hstrict : rest.Pairwise fun a b => a.id < b.id :=
      (hsorted ▸ pairwise_lt_sortOn hids).tail
    have hother : other.Pairwise fun a b => a.id < b.id := sortOn_cons_of_lt hstrict hlt
    -- It is a list that the sort leaves alone, so its text is the same one.
    have hself : sortOn NewPart.id other = other := sortOn_eq_self (hother.imp le_of_lt)
    have hnul : NulFree k ∧ NulFree i := by
      have := nul_notMem_append_newline hkind (hparts p (hmem p (by simp))).1
      rw [← hcut] at this
      simp only [NulFree, String.toList_append, List.mem_append, not_or] at this
      exact ⟨this.1.1, this.2⟩
    refine (hfaithful k other hnul.1 ?_ ?_ ?_).1
    · intro q hq
      rcases List.mem_cons.mp hq with rfl | hq
      · exact ⟨hnul.2, (hparts p (hmem p (by simp))).2⟩
      · exact hparts q (hmem q (by simp [hq]))
    · rw [List.nodup_iff_pairwise_ne, List.pairwise_map]
      exact hother.imp ne_of_lt
    · have htext : componentText k other = componentText kind parts := by
        apply String.toList_inj.mp
        rw [toList_componentText_of_sorted hself, toList_componentText_of_sorted hsorted, hcut]
      rw [componentIdentity, componentIdentity, htext]
  · intro hone kind' parts' hkind' hparts' hids' heq
    have htext := eq_of_hashText_eq hsha heq
    -- Another kind with the same text is another cut, and its id sorts before the second one, since
    -- the parts of the other request were sorted too.
    have hkinds : kind' = kind := by
      rcases of_componentText_eq hkind hkind' hparts hparts' htext with
        ⟨-, -, rfl⟩ | ⟨p, p', rest, hs, hs', -, -, hcut⟩
      · rfl
      · refine hone p rest hs kind' p'.id hcut fun q hq => ?_
        have hstrict : (p' :: rest).Pairwise fun a b => a.id < b.id :=
          hs' ▸ pairwise_lt_sortOn hids'
        exact List.rel_of_pairwise_cons hstrict (List.mem_of_mem_head? hq)
    subst hkinds
    exact ⟨rfl, componentText_inj_of_kind hparts' hparts htext⟩

/-- A kind and part ids without newlines can be read in only one way. -/
theorem readsOneWay_of_newline_notMem {kind : String} {parts : List NewPart}
    (hkind : '\n' ∉ kind.toList) (hids : ∀ p ∈ parts, '\n' ∉ p.id.toList) :
    ReadsOneWay kind parts := by
  intro p rest hsorted kind' id hcut _
  have hmem : p ∈ sortOn NewPart.id parts := by simp [hsorted]
  have hp : '\n' ∉ p.id.toList := hids p (mem_sortOn.mp hmem)
  have hl := congrArg String.toList hcut
  simp only [String.toList_append, List.append_assoc] at hl
  -- The text has a single newline, so the other cut is at it.
  have hcount := congrArg (List.count '\n') hl
  simp only [List.count_append, List.count_eq_zero_of_not_mem hkind,
    List.count_eq_zero_of_not_mem hp] at hcount
  have hkind' : '\n' ∉ kind'.toList := by
    rw [← List.count_eq_zero]
    omega
  exact String.toList_inj.mp (Text.append_cons_inj hkind' hkind hl).1

/-- The identity of a component with one part stands for that part alone. -/
theorem componentIdentity_faithful_kernel :
    let parts : List NewPart := [⟨"kernel", "file", ⟨Vector.replicate 32 7⟩⟩]
    let digest : ContentHash := ⟨#v[154, 44, 253, 119, 117, 104, 94, 80, 173, 39, 127, 187, 34,
      104, 10, 222, 150, 136, 23, 65, 15, 90, 125, 218, 151, 203, 15, 117, 211, 216, 176, 207]⟩
    let sha := Sha256.ofDigests [(componentText "vm" parts, digest)]
    ReadsOneWay "vm" parts ∧
      ∀ kind' parts', NulFree kind' → (∀ p ∈ parts', p.NulFree) → (parts'.map (·.id)).Nodup →
        componentIdentity sha kind' parts' = componentIdentity sha "vm" parts →
          kind' = "vm" ∧ parts'.Perm parts := by
  intro parts digest sha
  have hone : ReadsOneWay "vm" parts := readsOneWay_of_newline_notMem (by decide) (by decide)
  have hsha : CollisionFreeAt sha (componentText "vm" parts).toByteArray :=
    collisionFreeAt_ofDigests (by decide) (by simp)
  exact ⟨hone, (componentIdentity_faithful_iff sha "vm" parts (by decide) (by decide) (by decide)
    hsha).mpr hone⟩

/-- Moving a newline from the kind to the part id leaves the identity as it is. -/
theorem componentIdentity_not_faithful :
    let content : ContentHash := ⟨Vector.replicate 32 7⟩
    let parts : List NewPart := [⟨"rootfs", "file", content⟩]
    let parts' : List NewPart := [⟨"bank\nrootfs", "file", content⟩]
    (NulFree "vm\nbank" ∧ (∀ p ∈ parts, p.NulFree) ∧ (parts.map (·.id)).Nodup) ∧
      (NulFree "vm" ∧ (∀ p ∈ parts', p.NulFree) ∧ (parts'.map (·.id)).Nodup) ∧
      (∀ sha, componentIdentity sha "vm\nbank" parts = componentIdentity sha "vm" parts') ∧
      "vm\nbank" ≠ "vm" ∧ ¬ parts.Perm parts' := by
  refine ⟨by decide, by decide, fun sha => ?_, by decide, by decide⟩
  exact congrArg (hashText sha) (by decide)

/-! ## Vehicle texts -/

private theorem toList_joinIds (ids : List ℤ) :
    (joinIds ids).toList = [','].intercalate (ids.map fun n => (toString n).toList) := by
  simp [joinIds, String.toList_intercalate, Function.comp_def]

/-- Joined decimal ids determine the ids. -/
theorem joinIds_injective : Function.Injective joinIds := by
  intro ids ids' h
  have hl := congrArg String.toList h
  rw [toList_joinIds, toList_joinIds] at hl
  have hcomma : ∀ (l : List ℤ), ∀ s ∈ l.map fun n => (toString n).toList, ',' ∉ s := by
    rintro l s hs
    obtain ⟨n, -, rfl⟩ := List.mem_map.mp hs
    exact Text.notMem_toString (by decide) (by decide) n
  have hne : ∀ (l : List ℤ), ∀ s ∈ l.map fun n => (toString n).toList, s ≠ [] := by
    rintro l s hs
    obtain ⟨n, -, rfl⟩ := List.mem_map.mp hs
    exact Text.toString_ne_nil n
  -- A numeral is not empty and has no comma, so the joined text falls apart into the numerals.
  have hmap := Text.intercalate_inj (hcomma ids) (hcomma ids') (hne ids) (hne ids') hl
  exact List.map_injective_iff.mpr
    (fun m n h => Text.toString_injective (String.toList_inj.mp h)) hmap

private theorem newline_notMem_joinIds (ids : List ℤ) : '\n' ∉ (joinIds ids).toList := by
  rw [toList_joinIds]
  refine Text.notMem_intercalate (by decide) fun s hs => ?_
  obtain ⟨n, -, rfl⟩ := List.mem_map.mp hs
  exact Text.notMem_toString (by decide) (by decide) n

/-- The disabled ids among the members, sorted and deduplicated. -/
private def disabledAmong (members disabledMembers : List ℤ) : List ℤ :=
  canonical (disabledMembers.filter fun d => (canonical members).contains d)

private theorem mem_disabledAmong {members disabledMembers : List ℤ} {m : ℤ} :
    m ∈ disabledAmong members disabledMembers ↔ m ∈ disabledMembers ∧ m ∈ members := by
  simp [disabledAmong]

/-- What a vehicle text has behind the joined members. -/
private def disabledSuffix (disabled : List ℤ) : List Char :=
  if disabled.isEmpty then [] else '\n' :: ("disabled:".toList ++ (joinIds disabled).toList)

private theorem toList_vehicleText (members disabledMembers : List ℤ) :
    (vehicleText members disabledMembers).toList =
      (joinIds (canonical members)).toList ++
        disabledSuffix (disabledAmong members disabledMembers) := by
  rw [vehicleText, disabledSuffix, disabledAmong]
  split <;> simp

private theorem disabledSuffix_injective : Function.Injective disabledSuffix := by
  intro ids ids' h
  unfold disabledSuffix at h
  split at h <;> split at h
  case isTrue.isTrue hnil hnil' => rw [List.isEmpty_iff.mp hnil, List.isEmpty_iff.mp hnil']
  case isFalse.isFalse =>
    have hl := List.append_cancel_left (List.tail_eq_of_cons_eq h)
    exact joinIds_injective (String.toList_inj.mp hl)
  all_goals simp at h

/-- A vehicle text determines the set of members and which of them are disabled. -/
theorem vehicleText_inj {members members' disabled disabled' : List ℤ}
    (h : vehicleText members disabled = vehicleText members' disabled') :
    (∀ m, m ∈ members ↔ m ∈ members') ∧ ∀ m ∈ members, m ∈ disabled ↔ m ∈ disabled' := by
  have hl := congrArg String.toList h
  rw [toList_vehicleText, toList_vehicleText] at hl
  -- The members end where the first newline starts the disabled ones, or at the end of the text.
  have hids : ∀ (ids : List ℤ), ∀ c ∈ (joinIds ids).toList, decide (c ≠ '\n') = true :=
    fun ids c hc => decide_eq_true fun heq => newline_notMem_joinIds ids (heq ▸ hc)
  have hsuffix : ∀ (ids : List ℤ), ∀ c ∈ (disabledSuffix ids).head?, decide (c ≠ '\n') = false := by
    intro ids c hc
    unfold disabledSuffix at hc
    split at hc
    · simp at hc
    · obtain rfl : '\n' = c := by simpa using hc
      rfl
  obtain ⟨hjoin, hrest⟩ :=
    Text.append_inj_of_head (hids _) (hids _) (hsuffix _) (hsuffix _) hl
  have hmembers := canonical_eq_iff.mp (joinIds_injective (String.toList_inj.mp hjoin))
  have hdisabled := disabledSuffix_injective hrest
  refine ⟨hmembers, fun m hm => ?_⟩
  have hm' := (hmembers m).mp hm
  calc m ∈ disabled ↔ m ∈ disabledAmong members disabled := by simp [mem_disabledAmong, hm]
    _ ↔ m ∈ disabledAmong members' disabled' := by rw [hdisabled]
    _ ↔ m ∈ disabled' := by simp [mem_disabledAmong, hm']

/-- The set of members and the set of disabled members determine a vehicle text. -/
theorem vehicleText_eq_of_mem_iff {members members' disabled disabled' : List ℤ}
    (hmembers : ∀ m, m ∈ members ↔ m ∈ members')
    (hdisabled : ∀ m ∈ members, m ∈ disabled ↔ m ∈ disabled') :
    vehicleText members disabled = vehicleText members' disabled' := by
  have hsame : disabledAmong members disabled = disabledAmong members' disabled' := by
    refine canonical_eq_iff.mpr fun m => ?_
    have hmem := hdisabled m
    simp only [List.mem_filter, List.contains_iff_mem, mem_canonical, ← hmembers m]
    tauto
  rw [← String.toList_inj, toList_vehicleText, toList_vehicleText, hsame,
    canonical_eq_iff.mpr hmembers]

/-- A vehicle identity stands for the set of the members and for the set of those among them that
are disabled: neither order nor repetitions matter, nor what is disabled without being a member, and
to disable one more member gives another identity. -/
theorem vehicleIdentity_eq_iff (sha : Sha256) (members disabled : List ℤ)
    (hsha : CollisionFreeAt sha (vehicleText members disabled).toByteArray) :
    (∀ members' disabled', vehicleIdentity sha members' disabled' =
        vehicleIdentity sha members disabled ↔
      (∀ m, m ∈ members' ↔ m ∈ members) ∧
        ∀ m, (m ∈ disabled' ∧ m ∈ members') ↔ (m ∈ disabled ∧ m ∈ members)) ∧
      ∀ m ∈ members, m ∉ disabled →
        vehicleIdentity sha members (m :: disabled) ≠ vehicleIdentity sha members disabled := by
  have hiff : ∀ members' disabled', vehicleIdentity sha members' disabled' =
      vehicleIdentity sha members disabled ↔
        (∀ m, m ∈ members' ↔ m ∈ members) ∧
          ∀ m, (m ∈ disabled' ∧ m ∈ members') ↔ (m ∈ disabled ∧ m ∈ members) := by
    intro members' disabled'
    constructor
    · intro h
      obtain ⟨hmembers, hdisabled⟩ := vehicleText_inj (eq_of_hashText_eq hsha h)
      refine ⟨hmembers, fun m => ?_⟩
      rw [← hmembers m]
      exact and_congr_left (hdisabled m)
    · rintro ⟨hmembers, hdisabled⟩
      refine congrArg (hashText sha) (vehicleText_eq_of_mem_iff hmembers fun m hm => ?_)
      simpa [hm, (hmembers m).mp hm] using hdisabled m
  refine ⟨hiff, fun m hm hnot heq => ?_⟩
  have hdisabled := ((hiff members (m :: disabled)).mp heq).2 m
  exact hnot (hdisabled.mp ⟨List.mem_cons_self, hm⟩).1

/-- The members 3 and -1, the second one disabled, whatever the order, the repetitions and the
disabled id 9. -/
theorem vehicleIdentity_eq_iff_two_members :
    let digest : ContentHash := ⟨#v[117, 93, 118, 193, 204, 186, 14, 102, 251, 230, 7, 121, 243,
      185, 41, 161, 109, 178, 235, 177, 126, 10, 167, 85, 101, 164, 251, 178, 137, 146, 175, 212]⟩
    let both : ContentHash := ⟨#v[197, 250, 244, 116, 23, 161, 178, 251, 114, 74, 36, 202, 65, 171,
      166, 144, 170, 130, 233, 17, 82, 181, 44, 42, 9, 245, 175, 47, 213, 138, 162, 103]⟩
    let sha := Sha256.ofDigests [(vehicleText [3, -1] [-1], digest),
      (vehicleText [3, -1] [3, -1], both)]
    vehicleIdentity sha [-1, 3, 3] [9, -1, -1] = vehicleIdentity sha [3, -1] [-1] ∧
      vehicleIdentity sha [3, -1] [3, -1] ≠ vehicleIdentity sha [3, -1] [-1] := by
  intro digest both sha
  have hsha : CollisionFreeAt sha (vehicleText [3, -1] [-1]).toByteArray :=
    collisionFreeAt_ofDigests (by decide) (by decide)
  obtain ⟨hiff, hdisable⟩ := vehicleIdentity_eq_iff sha [3, -1] [-1] hsha
  refine ⟨(hiff _ _).mpr ⟨fun m => ?_, fun m => ?_⟩, hdisable 3 (by simp) (by decide)⟩
  · simp
    tauto
  · simp
    omega

end SoftwareTower
