import Std.Data.ExtTreeMap
import Std.Data.ExtTreeSet
import Mathlib.Data.List.Dedup
import Mathlib.Data.List.Sort

/-!
# Ordered maps and sets

Facts about `Std.ExtTreeMap` and `Std.ExtTreeSet` over a linear order, in the form in which a
program that iterates over an ordered map or collects into an ordered set needs them:

* `OrderedMap.pairwise_lt_toList`, `OrderedMap.toList_ofList`: iteration visits the keys in strictly
  ascending order, and every list with strictly ascending keys is the iteration of a map.
* `OrderedMap.mem_of_getElem?_ofList`, `OrderedMap.mem_keys_toList_ofList`: what a map collected
  from a list, repeated keys included, can hold.
* `OrderedMap.mem_toList_ofList`, `OrderedMap.length_toList_ofList_iff`: a list loses nothing in the
  map collected from it iff its keys are distinct.
* `OrderedMap.filter_toList`, `OrderedMap.filter_flatMap_of_key`: the share of one key in an
  iteration, and in a list that a loop over the entries fills.
* `OrderedSet.mem_foldl_insert`: the elements of a set filled by a loop with a test.
-/

namespace OrderedMap

open Std (ExtTreeMap)

variable {K V : Type} [LinearOrder K]

/-- Iteration visits the keys in strictly ascending order. -/
theorem pairwise_lt_toList (m : ExtTreeMap K V) : m.toList.Pairwise fun a b => a.1 < b.1 :=
  (ExtTreeMap.ordered_keys_toList (t := m)).imp compare_lt_iff_lt.mp

theorem nodup_keys_toList (m : ExtTreeMap K V) : (m.toList.map Prod.fst).Nodup := by
  rw [List.nodup_iff_pairwise_ne, List.pairwise_map]
  exact (pairwise_lt_toList m).imp ne_of_lt

@[simp] theorem mem_toList {m : ExtTreeMap K V} {k : K} {v : V} :
    (k, v) ∈ m.toList ↔ m[k]? = some v :=
  ExtTreeMap.mem_toList_iff_getElem?_eq_some

theorem contains_iff {m : ExtTreeMap K V} {k : K} :
    m.contains k = true ↔ ∃ v, m[k]? = some v := by
  rw [ExtTreeMap.contains_eq_isSome_getElem?, Option.isSome_iff_exists]

theorem contains_eq_false_iff {m : ExtTreeMap K V} {k : K} :
    m.contains k = false ↔ m[k]? = none := by
  rw [ExtTreeMap.contains_eq_isSome_getElem?, Option.isSome_eq_false_iff, Option.isNone_iff_eq_none]

theorem mem_of_lookup_eq_some {l : List (K × V)} {k : K} {v : V} (h : l.lookup k = some v) :
    (k, v) ∈ l := by
  obtain ⟨l₁, l₂, rfl, -⟩ := List.lookup_eq_some_iff.mp h
  simp

theorem lookup_eq_some_iff {l : List (K × V)} (hl : (l.map Prod.fst).Nodup) {k : K} {v : V} :
    l.lookup k = some v ↔ (k, v) ∈ l := by
  refine ⟨mem_of_lookup_eq_some, fun h => ?_⟩
  induction l with
  | nil => cases h
  | cons e l ih =>
    rw [List.map_cons, List.nodup_cons] at hl
    rcases List.mem_cons.mp h with rfl | h
    · simp
    · have hne : k ≠ e.1 := by
        rintro rfl
        exact hl.1 (List.mem_map.mpr ⟨_, h, rfl⟩)
      rw [List.lookup_cons, beq_false_of_ne hne]
      exact ih hl.2 h

/-- Two lists with strictly ascending keys and the same entries are equal. -/
theorem eq_of_mem_iff {l l' : List (K × V)} (hl : l.Pairwise fun a b => a.1 < b.1)
    (hl' : l'.Pairwise fun a b => a.1 < b.1) (h : ∀ e, e ∈ l ↔ e ∈ l') : l = l' := by
  -- Strictly ascending keys make both lists free of repetitions, so they are permutations of each
  -- other, and of two sorted permutations there is only one.
  have hperm : l.Perm l' := by
    refine (List.perm_ext_iff_of_nodup ?_ ?_).mpr h
    · exact hl.imp fun hab heq => absurd (congrArg Prod.fst heq) (ne_of_lt hab)
    · exact hl'.imp fun hab heq => absurd (congrArg Prod.fst heq) (ne_of_lt hab)
  refine hperm.eq_of_pairwise (fun a b _ _ hab hba => ?_) hl hl'
  exact absurd hab (lt_asymm hba)

/-- A lookup in the iteration of a map is a lookup in the map. -/
theorem lookup_toList (m : ExtTreeMap K V) (k : K) : m.toList.lookup k = m[k]? := by
  refine Option.ext fun v => ?_
  rw [← mem_toList]
  exact lookup_eq_some_iff (nodup_keys_toList m)

/-- A map collected from a list holds under a key what the list has last for it. -/
theorem getElem?_ofList (l : List (K × V)) (k : K) :
    (ExtTreeMap.ofList l)[k]? = l.reverse.lookup k := by
  rw [ExtTreeMap.ofList_eq_insertMany_empty, ExtTreeMap.getElem?_insertMany_list]
  -- A later entry of the list overrides an earlier one, so the search runs from its end.
  rw [ExtTreeMap.getElem?_empty, Option.or_none, List.findSomeRev?_eq_findSome?_reverse]
  induction l.reverse with
  | nil => rfl
  | cons e l ih =>
    rw [List.findSome?_cons, List.lookup_cons, ih]
    by_cases he : k = e.1
    · simp [he]
    · have hne : compare e.1 k ≠ .eq := fun h => he (Std.compare_eq_iff_eq.mp h).symm
      simp [beq_false_of_ne he, hne]

/-- A loop that inserts the entries of a list overrides what the map held for their keys. -/
theorem getElem?_foldl_insert (l : List (K × V)) (m : ExtTreeMap K V) (k : K) :
    (l.foldl (fun m e => m.insert e.1 e.2) m)[k]? = (l.reverse.lookup k).or m[k]? := by
  induction l generalizing m with
  | nil => simp
  | cons e l ih =>
    rw [List.foldl_cons, ih, List.reverse_cons, List.lookup_append, Option.or_assoc]
    -- The search runs from the end of the list, so it meets `e` only if no later entry has the key.
    congr 1
    rw [ExtTreeMap.getElem?_insert, List.lookup_cons, List.lookup_nil]
    by_cases he : k = e.1
    · simp [he]
    · have hne : compare e.1 k ≠ .eq := fun h => he (Std.compare_eq_iff_eq.mp h).symm
      simp [beq_false_of_ne he, hne]

/-- A loop that inserts the entries of a list into the empty map collects the list. -/
theorem foldl_insert_eq_ofList (l : List (K × V)) :
    l.foldl (fun m e => m.insert e.1 e.2) (∅ : ExtTreeMap K V) = ExtTreeMap.ofList l := by
  refine ExtTreeMap.ext_getElem? fun {k} => ?_
  rw [getElem?_foldl_insert, getElem?_ofList, ExtTreeMap.getElem?_empty, Option.or_none]

/-- What a map collected from a list holds under a key stands in the list under that key. -/
theorem mem_of_getElem?_ofList {l : List (K × V)} {k : K} {v : V}
    (h : (ExtTreeMap.ofList l)[k]? = some v) : (k, v) ∈ l := by
  rw [getElem?_ofList] at h
  exact List.mem_reverse.mp (mem_of_lookup_eq_some h)

/-- Iteration over a map collected from a list visits the keys of the list. -/
theorem mem_keys_toList_ofList {l : List (K × V)} {k : K} :
    k ∈ (ExtTreeMap.ofList l).toList.map Prod.fst ↔ k ∈ l.map Prod.fst := by
  rw [ExtTreeMap.map_fst_toList_eq_keys, ExtTreeMap.mem_keys, ExtTreeMap.mem_ofList,
    List.contains_iff_mem]

/-- With distinct keys, a map collected from a list holds the entries of the list. -/
theorem mem_toList_ofList {l : List (K × V)} (hl : (l.map Prod.fst).Nodup) {e : K × V} :
    e ∈ (ExtTreeMap.ofList l).toList ↔ e ∈ l := by
  have hreverse : (l.reverse.map Prod.fst).Nodup := by
    rw [List.map_reverse, List.nodup_reverse]
    exact hl
  rw [mem_toList, getElem?_ofList, lookup_eq_some_iff hreverse, List.mem_reverse]

/-- A map collected from a list has an entry for each one of the list iff their keys are
distinct. -/
theorem length_toList_ofList_iff {l : List (K × V)} :
    (ExtTreeMap.ofList l).toList.length = l.length ↔ (l.map Prod.fst).Nodup := by
  have hperm : ((ExtTreeMap.ofList l).toList.map Prod.fst).Perm (l.map Prod.fst).dedup := by
    refine (List.perm_ext_iff_of_nodup (nodup_keys_toList _) (List.nodup_dedup _)).mpr fun k => ?_
    rw [mem_keys_toList_ofList, List.mem_dedup]
  have hlength : (ExtTreeMap.ofList l).toList.length = (l.map Prod.fst).dedup.length := by
    rw [← hperm.length_eq, List.length_map]
  have hkeys : l.length = (l.map Prod.fst).length := (List.length_map _).symm
  rw [hlength, hkeys, ← List.dedup_eq_self]
  constructor
  · exact (List.dedup_sublist _).eq_of_length
  · exact congrArg List.length

/-- A list with strictly ascending keys is the iteration of the map collected from it. -/
theorem toList_ofList {l : List (K × V)} (hl : l.Pairwise fun a b => a.1 < b.1) :
    (ExtTreeMap.ofList l).toList = l := by
  refine eq_of_mem_iff (pairwise_lt_toList _) hl fun ⟨k, v⟩ => ?_
  rw [mem_toList]
  refine ⟨mem_of_getElem?_ofList, fun h => ?_⟩
  exact ExtTreeMap.getElem?_ofList_of_mem (Std.compare_eq_iff_eq.mpr rfl)
    (hl.imp fun hab heq => (ne_of_lt hab) (Std.compare_eq_iff_eq.mp heq)) h

/-- Collecting the iteration of a map gives the map back. -/
theorem ofList_toList (m : ExtTreeMap K V) : ExtTreeMap.ofList m.toList = m := by
  refine ExtTreeMap.ext_getElem? fun {k} => ?_
  rw [← lookup_toList, toList_ofList (pairwise_lt_toList m), lookup_toList]

/-- Collecting a list whose values are changed changes the values of the map. -/
theorem getElem?_ofList_map {W : Type} (f : V → W) (l : List (K × V)) (k : K) :
    (ExtTreeMap.ofList (l.map fun e => (e.1, f e.2)))[k]? = (ExtTreeMap.ofList l)[k]?.map f := by
  rw [getElem?_ofList, getElem?_ofList, ← List.map_reverse]
  induction l.reverse with
  | nil => rfl
  | cons e l ih =>
    rw [List.map_cons, List.lookup_cons, List.lookup_cons, ih]
    cases k == e.1 <;> rfl

/-- Iteration visits a key at most once, with the value the map holds for it. -/
theorem filter_toList (m : ExtTreeMap K V) (k : K) :
    m.toList.filter (fun e => e.1 = k) = m[k]?.toList.map fun v => (k, v) := by
  have hsorted : (m[k]?.toList.map fun v => (k, v)).Pairwise fun a b => a.1 < b.1 := by
    cases m[k]? <;> simp
  refine eq_of_mem_iff ((pairwise_lt_toList m).filter _) hsorted fun ⟨k', v⟩ => ?_
  simp only [List.mem_filter, mem_toList, decide_eq_true_eq, List.mem_map, Option.mem_toList,
    Prod.mk.injEq]
  constructor
  · rintro ⟨hv, rfl⟩
    exact ⟨v, hv, rfl, rfl⟩
  · rintro ⟨v', hv', rfl, rfl⟩
    exact ⟨hv', rfl⟩

/-- What a loop over entries collects for one key comes from the entries with that key, if
everything it collects carries the key of its entry. -/
theorem filter_flatMap_of_key {α : Type} {f : K × V → List α} {key : α → K}
    (hkey : ∀ e, ∀ a ∈ f e, key a = e.1) (l : List (K × V)) (k : K) :
    (l.flatMap f).filter (fun a => key a = k) = (l.filter fun e => e.1 = k).flatMap f := by
  induction l with
  | nil => rfl
  | cons e l ih =>
    rw [List.flatMap_cons, List.filter_append, ih, List.filter_cons]
    by_cases he : e.1 = k
    · rw [if_pos (by simpa using he), List.flatMap_cons]
      congr 1
      exact List.filter_eq_self.mpr fun a ha => by simpa [he] using hkey e a ha
    · rw [if_neg (by simpa using he)]
      have hnone : (f e).filter (fun a => key a = k) = [] :=
        List.filter_eq_nil_iff.mpr fun a ha => by simpa [hkey e a ha] using he
      rw [hnone, List.nil_append]

end OrderedMap

namespace OrderedSet

open Std (ExtTreeSet)

variable {K α : Type} [LinearOrder K]

@[simp] theorem mem_insert_iff {s : ExtTreeSet K} {k a : K} : a ∈ s.insert k ↔ k = a ∨ a ∈ s := by
  rw [ExtTreeSet.mem_insert, Std.compare_eq_iff_eq]

/-- The elements of a set that a loop over `l` fills with `f x` for every `x` passing a test. -/
theorem mem_foldl_insert (test : α → Bool) (f : α → K) (l : List α) (s : ExtTreeSet K) (a : K) :
    a ∈ l.foldl (fun s x => if test x then s.insert (f x) else s) s ↔
      a ∈ s ∨ ∃ x ∈ l, test x = true ∧ f x = a := by
  induction l generalizing s with
  | nil => simp
  | cons x l ih =>
    rw [List.foldl_cons, ih]
    by_cases hx : test x = true
    · simp only [hx, ↓reduceIte, mem_insert_iff, List.mem_cons, exists_eq_or_imp, true_and]
      tauto
    · simp [hx]

end OrderedSet
