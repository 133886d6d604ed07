import Mathlib.Data.List.Nodup
import SumoProvision.Foundations.Prog

/-!
# Work that is done once

Rounds that work off a set of tasks. In each state some tasks are open. A round picks open tasks and
completes some of those it picked: what it completes is closed behind it, and what it does not pick
stays open or closed as it was. A task that is picked and not completed may end up either way.

* `Worklist.Meets` is what a round has to do, `Trace.AllMeet` says it of every round of a sequence.
* `Worklist.nodup_completed`: over a sequence of rounds no task is completed twice.
* `Worklist.of_picked`: a round picks only what was open at the start and has not been completed.
* `Worklist.open_foldl_iff`: if each round leaves open what it does not complete, what is open
  behind a sequence is what was open in front of it and has not been completed.
-/

/-- Rounds over states, and the tasks that are open in a state, picked and completed by a round. -/
structure Worklist (σ τ ι : Type) where
  next : σ → τ → σ
  Open : σ → ι → Prop
  Picked : σ → τ → ι → Prop
  completed : τ → List ι

namespace Worklist

variable {σ τ ι : Type} {W : Worklist σ τ ι} {x : σ} {i : ι}

/-- The round does its part. -/
structure Meets (W : Worklist σ τ ι) (x : σ) (t : τ) : Prop where
  open_of_picked : ∀ i, W.Picked x t i → W.Open x i
  picked_of_completed : ∀ i ∈ W.completed t, W.Picked x t i
  nodup : (W.completed t).Nodup
  closed : ∀ i ∈ W.completed t, ¬ W.Open (W.next x t) i
  /-- The other tasks are not touched. -/
  kept : ∀ i, ¬ W.Picked x t i → (W.Open (W.next x t) i ↔ W.Open x i)

/-- The round leaves open what it does not complete. -/
def Reverts (W : Worklist σ τ ι) (x : σ) (t : τ) : Prop :=
  ∀ i, i ∉ W.completed t → W.Open x i → W.Open (W.next x t) i

/-- The step lemma: a round opens nothing, and closes what it completes. -/
theorem Meets.of_open_next {t : τ} (h : W.Meets x t) (hopen : W.Open (W.next x t) i) :
    W.Open x i ∧ i ∉ W.completed t := by
  refine ⟨?_, fun hcompleted => h.closed i hcompleted hopen⟩
  by_cases hpicked : W.Picked x t i
  · exact h.open_of_picked i hpicked
  · exact (h.kept i hpicked).mp hopen

theorem Meets.open_next_iff {t : τ} (h : W.Meets x t) (hreverts : W.Reverts x t) :
    W.Open (W.next x t) i ↔ W.Open x i ∧ i ∉ W.completed t :=
  ⟨h.of_open_next, fun ⟨hopen, hnot⟩ => hreverts i hnot hopen⟩

/-- The run lemma: what is open behind a sequence was open in front of it and has not been
completed. -/
theorem of_open_foldl {ts : List τ} (h : Trace.AllMeet W.next W.Meets x ts)
    (hopen : W.Open (ts.foldl W.next x) i) : W.Open x i ∧ i ∉ ts.flatMap W.completed := by
  induction ts generalizing x with
  | nil => exact ⟨hopen, List.not_mem_nil⟩
  | cons t ts ih =>
    obtain ⟨hnext, hrest⟩ := ih h.2 hopen
    obtain ⟨hx, ht⟩ := h.1.of_open_next hnext
    refine ⟨hx, ?_⟩
    rw [List.flatMap_cons, List.mem_append, not_or]
    exact ⟨ht, hrest⟩

theorem open_foldl_iff {ts : List τ} (h : Trace.AllMeet W.next W.Meets x ts)
    (hreverts : Trace.AllMeet W.next W.Reverts x ts) :
    W.Open (ts.foldl W.next x) i ↔ W.Open x i ∧ i ∉ ts.flatMap W.completed := by
  induction ts generalizing x with
  | nil => simp
  | cons t ts ih =>
    rw [List.foldl_cons, ih h.2 hreverts.2, h.1.open_next_iff hreverts.1, List.flatMap_cons,
      List.mem_append, not_or, and_assoc]

/-- A round in a sequence picks only what was open at the start and has not been completed before
it. -/
theorem of_picked {before later : List τ} {t : τ}
    (h : Trace.AllMeet W.next W.Meets x (before ++ t :: later))
    (hpicked : W.Picked (before.foldl W.next x) t i) :
    W.Open x i ∧ i ∉ before.flatMap W.completed := by
  obtain ⟨hbefore, ht, -⟩ := Trace.allMeet_append.mp h
  exact of_open_foldl hbefore (ht.open_of_picked i hpicked)

/-- What a sequence completes was open at its start. -/
theorem open_of_completed {ts : List τ} (h : Trace.AllMeet W.next W.Meets x ts)
    (hi : i ∈ ts.flatMap W.completed) : W.Open x i := by
  obtain ⟨t, ht, hcompleted⟩ := List.mem_flatMap.mp hi
  obtain ⟨before, later, rfl⟩ := List.append_of_mem ht
  obtain ⟨-, hmeets, -⟩ := Trace.allMeet_append.mp h
  exact (of_picked h (hmeets.picked_of_completed i hcompleted)).1

/-- No task is completed twice. -/
theorem nodup_completed {ts : List τ} (h : Trace.AllMeet W.next W.Meets x ts) :
    (ts.flatMap W.completed).Nodup := by
  induction ts generalizing x with
  | nil => exact List.nodup_nil
  | cons t ts ih =>
    rw [List.flatMap_cons, List.nodup_append]
    refine ⟨h.1.nodup, ih h.2, ?_⟩
    -- What a later round completes is open behind this one, so this one has not completed it.
    rintro i hi _ hrest rfl
    exact h.1.closed i hi (open_of_completed h.2 hrest)

end Worklist
