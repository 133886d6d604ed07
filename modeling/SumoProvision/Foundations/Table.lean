import Mathlib.Data.List.Pairwise

/-!
# Tables with unique constraints

A table is the list of its rows in insertion order. Its unique constraints are one relation `Clash`
between rows, and no two rows of a table clash, so a table that violates a constraint cannot be
built. `insert` takes a row that clashes with none, which `Free` decides, and `modify` changes rows
in a way that makes none clash.
-/

/-- A table whose rows do not clash. -/
@[ext] structure Table (ρ : Type) (Clash : ρ → ρ → Prop) where
  rows : List ρ
  unique : rows.Pairwise fun r r' => ¬ Clash r r'

namespace Table

variable {ρ : Type} {Clash : ρ → ρ → Prop}

/-- The empty table. -/
def empty : Table ρ Clash :=
  ⟨[], .nil⟩

/-- No row of the table clashes with the new one. -/
def Free (t : Table ρ Clash) (r : ρ) : Prop :=
  ∀ r' ∈ t.rows, ¬ Clash r' r

instance [DecidableRel Clash] (t : Table ρ Clash) (r : ρ) : Decidable (t.Free r) :=
  inferInstanceAs (Decidable (∀ r' ∈ t.rows, ¬ Clash r' r))

/-- Add a row that clashes with none. -/
def insert (t : Table ρ Clash) (r : ρ) (h : t.Free r) : Table ρ Clash :=
  ⟨t.rows ++ [r], by
    rw [List.pairwise_append]
    -- Of two rows, both are old, or the second is the new one.
    exact ⟨t.unique, List.pairwise_singleton _ r, by simpa [Free] using h⟩⟩

/-- Change rows without making two of them clash that did not. -/
def modify (t : Table ρ Clash) (f : ρ → ρ) (hf : ∀ r r', Clash (f r) (f r') → Clash r r') :
    Table ρ Clash :=
  ⟨t.rows.map f, List.pairwise_map.mpr (t.unique.imp fun h hc => h (hf _ _ hc))⟩

@[simp] theorem rows_empty : (empty : Table ρ Clash).rows = [] := rfl

@[simp] theorem rows_modify (t : Table ρ Clash) (f : ρ → ρ)
    (hf : ∀ r r', Clash (f r) (f r') → Clash r r') : (t.modify f hf).rows = t.rows.map f := rfl

@[simp] theorem rows_insert (t : Table ρ Clash) (r : ρ) (h : t.Free r) :
    (t.insert r h).rows = t.rows ++ [r] := rfl

/-- A row that clashes with none of the old rows is free iff it clashes with none of those added
since. -/
theorem free_iff_of_rows_eq {t : Table ρ Clash} {old added : List ρ} {r : ρ}
    (hrows : t.rows = old ++ added) (hold : ∀ r' ∈ old, ¬ Clash r' r) :
    t.Free r ↔ ∀ r' ∈ added, ¬ Clash r' r := by
  rw [Free, hrows, List.forall_mem_append]
  exact and_iff_right hold

/-- What holds of the rows of a table and of the new row holds of the rows after the insertion. -/
theorem forall_mem_insert {t : Table ρ Clash} {r : ρ} {h : t.Free r} {P : ρ → Prop}
    (hold : ∀ r' ∈ t.rows, P r') (hnew : P r) : ∀ r' ∈ (t.insert r h).rows, P r' := by
  intro r' hr'
  rcases List.mem_append.mp hr' with hr' | hr'
  · exact hold r' hr'
  · rw [List.mem_singleton.mp hr']
    exact hnew

/-- A row that a table has is there after an insertion. -/
theorem exists_mem_insert {t : Table ρ Clash} {r : ρ} {h : t.Free r} {P : ρ → Prop}
    (hold : ∃ r' ∈ t.rows, P r') : ∃ r' ∈ (t.insert r h).rows, P r' := by
  obtain ⟨r', hr', hP⟩ := hold
  exact ⟨r', List.mem_append_left _ hr', hP⟩

/-- Two rows of a table that clash are one row, if clashing is symmetric. -/
theorem eq_of_clash {t : Table ρ Clash} (hsymm : ∀ r r', Clash r r' → Clash r' r) {r r' : ρ}
    (hr : r ∈ t.rows) (hr' : r' ∈ t.rows) (h : Clash r r') : r = r' := by
  have hsymm' : Std.Symm fun r r' => ¬ Clash r r' := ⟨fun r r' hn hc => hn (hsymm r' r hc)⟩
  by_contra hne
  exact t.unique.forall hr hr' hne h

/-- A lookup by a unique key finds the row with that key. -/
theorem find?_eq_some_iff {t : Table ρ Clash} (hsymm : ∀ r r', Clash r r' → Clash r' r)
    {key : ρ → Bool} (hkey : ∀ r r', key r = true → key r' = true → Clash r r') {r : ρ} :
    t.rows.find? key = some r ↔ r ∈ t.rows ∧ key r = true := by
  constructor
  · intro h
    exact ⟨List.mem_of_find?_eq_some h, List.find?_some h⟩
  · rintro ⟨hr, hmatch⟩
    cases hfind : t.rows.find? key with
    | none => exact absurd hmatch (List.find?_eq_none.mp hfind r hr)
    | some r' =>
      have hclash := hkey r' r (List.find?_some hfind) hmatch
      rw [eq_of_clash hsymm (List.mem_of_find?_eq_some hfind) hr hclash]

/-- A table has no row twice, if every row clashes with itself. -/
theorem nodup_rows (t : Table ρ Clash) (hrefl : ∀ r, Clash r r) : t.rows.Nodup := by
  apply t.unique.imp
  rintro r _ h rfl
  exact h (hrefl r)

/-- A selection that only one row meets consists of that row. -/
theorem filter_eq_singleton {t : Table ρ Clash} (hrefl : ∀ r, Clash r r) {p : ρ → Bool} {r : ρ}
    (hr : r ∈ t.rows) (hp : p r = true) (honly : ∀ r' ∈ t.rows, p r' = true → r' = r) :
    t.rows.filter p = [r] := by
  have hall : t.rows.filter p = List.replicate (t.rows.filter p).length r := by
    refine List.eq_replicate_of_mem fun r' hr' => ?_
    exact honly r' (List.mem_filter.mp hr').1 (List.mem_filter.mp hr').2
  have hnodup : (t.rows.filter p).Nodup := (t.nodup_rows hrefl).filter p
  rw [hall, List.nodup_replicate] at hnodup
  -- At most once because nothing is there twice, at least once because `r` is selected.
  have hpos : 0 < (t.rows.filter p).length := by
    exact List.length_pos_of_mem (List.mem_filter.mpr ⟨hr, hp⟩)
  rw [hall, show (t.rows.filter p).length = 1 by omega]
  rfl

end Table
