import Mathlib.Data.List.Sort

/-!
# Canonical lists

Sorting by a key and dropping repetitions, the two steps by which a program makes a list
independent of the order in which it was given.

* `sortOn key l` is the stable sort of `l` by `key`.
* `dedup l` drops every element equal to the one before it.
* `canonical_eq_iff`: two lists have one canonical form iff they have the same elements.
-/

namespace Canonical

/-! ## Sorting by a key -/

section SortOn

variable {α κ : Type} [LinearOrder κ]

/-- Stable sort by a key. -/
def sortOn (key : α → κ) (l : List α) : List α :=
  l.insertionSort fun a b => key a ≤ key b

theorem perm_sortOn (key : α → κ) (l : List α) : (sortOn key l).Perm l :=
  List.perm_insertionSort _ l

@[simp] theorem mem_sortOn {key : α → κ} {l : List α} {a : α} : a ∈ sortOn key l ↔ a ∈ l :=
  List.mem_insertionSort _

theorem pairwise_sortOn (key : α → κ) (l : List α) :
    (sortOn key l).Pairwise fun a b => key a ≤ key b := by
  have htotal : Std.Total fun a b : α => key a ≤ key b := ⟨fun a b => le_total _ _⟩
  have htrans : IsTrans α fun a b => key a ≤ key b := ⟨fun _ _ _ => le_trans⟩
  exact List.pairwise_insertionSort _ l

/-- With distinct keys the sorted list is strictly ascending. -/
theorem pairwise_lt_sortOn {key : α → κ} {l : List α} (h : (l.map key).Nodup) :
    (sortOn key l).Pairwise fun a b => key a < key b := by
  have hne : (sortOn key l).Pairwise fun a b => key a ≠ key b := by
    rw [← List.pairwise_map]
    exact ((perm_sortOn key l).map key).nodup_iff.mpr h
  exact ((pairwise_sortOn key l).and hne).imp fun ⟨hle, hne⟩ => lt_of_le_of_ne hle hne

/-- With distinct keys the sorted list does not depend on the order of the list. -/
theorem sortOn_eq_of_perm {key : α → κ} {l l' : List α} (h : l.Perm l') (hl : (l.map key).Nodup) :
    sortOn key l = sortOn key l' := by
  have hl' : (l'.map key).Nodup := (h.map key).nodup_iff.mp hl
  refine List.Perm.eq_of_pairwise ?_ (pairwise_lt_sortOn hl) (pairwise_lt_sortOn hl')
    (((perm_sortOn key l).trans h).trans (perm_sortOn key l').symm)
  exact fun a b _ _ hab hba => absurd hba hab.asymm

/-- A list in ascending order is its own sorted form. -/
theorem sortOn_eq_self {key : α → κ} {l : List α} (h : l.Pairwise fun a b => key a ≤ key b) :
    sortOn key l = l :=
  h.insertionSort_eq

/-- Sorting by what a map keeps, before or after it. -/
theorem map_sortOn {β : Type} (f : α → β) (key : β → κ) (l : List α) :
    (sortOn (fun a => key (f a)) l).map f = sortOn key (l.map f) :=
  List.map_insertionSort _ _ f l fun _ _ _ _ => Iff.rfl

end SortOn

/-! ## Sorted lists without repetitions -/

section Dedup

variable {α : Type} [LinearOrder α]

/-- Drop every element that equals its predecessor. -/
def dedup : List α → List α
  | [] => []
  | [a] => [a]
  | a :: b :: l => if a = b then dedup (b :: l) else a :: dedup (b :: l)

@[simp] theorem mem_dedup {l : List α} {x : α} : x ∈ dedup l ↔ x ∈ l := by
  fun_induction dedup l with
  | case1 => rfl
  | case2 a => rfl
  | case3 a l ih => simp [ih]
  | case4 a b l hab ih => simp [ih]

theorem pairwise_lt_dedup {l : List α} (h : l.Pairwise (· ≤ ·)) : (dedup l).Pairwise (· < ·) := by
  fun_induction dedup l with
  | case1 => exact .nil
  | case2 a => exact List.pairwise_singleton _ a
  | case3 a l ih => exact ih h.tail
  | case4 a b l hab ih =>
    -- `a` is kept: it is below its successor `b`, and `b` is a lower bound of what is kept behind.
    rw [List.pairwise_cons] at h ⊢
    refine ⟨fun x hx => ?_, ih h.2⟩
    have hle : b ≤ x := by
      rcases List.mem_cons.mp (mem_dedup.mp hx) with rfl | hx
      · exact le_rfl
      · exact List.rel_of_pairwise_cons h.2 hx
    exact lt_of_lt_of_le (lt_of_le_of_ne (h.1 b (by simp)) hab) hle

/-- The sorted list of the elements of `l`, each once. -/
def canonical (l : List α) : List α :=
  dedup (sortOn id l)

@[simp] theorem mem_canonical {l : List α} {x : α} : x ∈ canonical l ↔ x ∈ l := by
  simp [canonical]

theorem pairwise_lt_canonical (l : List α) : (canonical l).Pairwise (· < ·) :=
  pairwise_lt_dedup (pairwise_sortOn id l)

/-- Two lists have one canonical form iff they have the same elements. -/
theorem canonical_eq_iff {l l' : List α} : canonical l = canonical l' ↔ ∀ x, x ∈ l ↔ x ∈ l' := by
  constructor
  · intro h x
    rw [← mem_canonical, h, mem_canonical]
  · intro h
    -- A strictly ascending list is determined by its elements.
    refine (pairwise_lt_canonical l).eq_of_mem_iff (pairwise_lt_canonical l') fun x => ?_
    rw [mem_canonical, mem_canonical, h]

end Dedup

end Canonical
