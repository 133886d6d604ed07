import SumoProvision.SoftwareTower.ContentIntegrity

/-!
# The references that publishing returns

Two publish calls with the same plaintext encrypt under different keys, and the second index entry
is dropped by `ON CONFLICT DO NOTHING`. The call whose entry is dropped still returns its own outer
hash, the address of a blob whose key nobody has.

`PutAgrees` is the condition that an index put that is answered finds no entry for its inner hash,
or the one of the same blob. `published_refs_indexed` shows that under it every returned reference
is the one of the index entry, then and in every later state.
-/

namespace SoftwareTower

open Wire

/-- An index put that is answered finds no entry for its inner hash, or the one of the same blob. -/
def PutAgrees : storeOps.Stmt → Option (Fault storeOps.Err) → Store → Prop
  | .indexPut e, none, x => ∀ e' ∈ x.index e.inner, e'.outer = e.outer ∧ e'.size = e.size
  | _, _, _ => True

instance (op : storeOps.Stmt) (fault : Option (Fault storeOps.Err)) (x : Store) :
    Decidable (PutAgrees op fault x) :=
  match op, fault with
  | .indexPut e, none =>
    inferInstanceAs (Decidable (∀ e' ∈ x.index e.inner, e'.outer = e.outer ∧ e'.size = e.size))
  | .indexPut _, some _ => .isTrue trivial
  | .receive, _ | .createDirAll, _ | .createTemp, _ | .write .., _ | .flush _, _ | .syncAll _, _
  | .tryExists _, _ | .remove _, _ | .rename .., _ | .indexGet _, _ => .isTrue trivial

/-- The index has an entry with this reference. -/
def Store.Indexed (x : Store) (ref : ArtifactRef) : Prop :=
  ∃ e, x.index ref.inner = some e ∧ e.ref = ref

theorem not_indexed_of_outer_ne {x : Store} {ref : ArtifactRef} {outer : ContentHash}
    (hindex : (x.index ref.inner).map (·.outer) = some outer) (hne : ref.outer ≠ outer) :
    ¬ x.Indexed ref := by
  rintro ⟨e, he, rfl⟩
  rw [he] at hindex
  exact hne (Option.some.inj hindex)

/-! ## The index over time -/

/-- The operation is no index put. -/
def NoPut : storeOps.Stmt → Prop
  | .indexPut _ => False
  | _ => True

/-- Only a put changes the index. -/
theorem index_answer {op : StoreOp} (hop : NoPut op) (fault : Option (Fault InternalError))
    (x : Store) : (contentStore.answer fault op x).2.index = x.index := by
  refine Service.forall_answer (S := storeOps) (P := fun y : Store => y.index = x.index) rfl ?_ ?_
    fault
  · cases op with
    | indexPut e => exact hop.elim
    | remove seq =>
      simp only [contentStore, Store.remove]
      split <;> rfl
    | rename seq outer =>
      simp only [contentStore, Store.rename]
      split <;> rfl
    | _ => rfl
  · -- Cut off, not even a put changes it.
    intro n
    cases op <;> rfl

/-- A put keeps every entry there is. -/
theorem index_put {x : Store} {inner : ContentHash} {e e' : ArtifactEntry}
    (h : x.index inner = some e) : (x.put e').index inner = some e := by
  unfold Store.put
  split
  · exact h
  · rename_i hnone
    have hne : inner ≠ e'.inner := by
      rintro rfl
      rw [hnone] at h
      cases h
    simpa [hne] using h

/-- No operation changes or removes an entry. -/
theorem index_kept {op : StoreOp} {x : Store} {inner : ContentHash} {e : ArtifactEntry}
    (h : x.index inner = some e) (fault : Option (Fault InternalError)) :
    (contentStore.answer fault op x).2.index inner = some e := by
  cases op with
  | indexPut e' =>
    exact Service.forall_answer (S := storeOps) (P := fun y : Store => y.index inner = some e) h
      (index_put h) (fun _ => h) fault
  -- Every other operation leaves the index as a whole.
  | _ => exact (congrFun (index_answer (by trivial) fault x) inner).trans h

/-- What is indexed stays indexed, whatever the calls do. -/
theorem Store.Indexed.foldl {ι : Type} [DecidableEq ι] {c : Publishing ι} {ref : ArtifactRef}
    (h : c.shared.Indexed ref) (schedule : List (Sys.Turn storeOps ι)) :
    (schedule.foldl (Sys.next contentStore) c).shared.Indexed ref := by
  induction schedule generalizing c with
  | nil => exact h
  | cons turn schedule ih =>
    apply ih
    obtain ⟨e, he, href⟩ := h
    refine ⟨e, ?_, href⟩
    cases hproc : c.proc turn.1 with
    | ret r =>
      -- The turn of a call that has ended is skipped.
      rw [Sys.next, Sys.step_of_ret hproc]
      exact he
    | call op k =>
      rw [Sys.next, Sys.step_of_call hproc]
      exact index_kept he turn.2

/-! ## What a call knows of the index -/

/-- The index is keyed by the inner hash, a call may know that a reference is indexed, and entries
stay. -/
def indexing : Discipline Store (Option ArtifactRef) where
  inv x := ∀ inner e, x.index inner = some e → e.inner = inner
  own g x := ∀ ref, g = some ref → x.Indexed ref
  apart _ _ := True
  apart_symm := id
  kept x x' := ∀ inner e, x.index inner = some e → x'.index inner = some e
  kept_refl _ _ _ h := h
  kept_trans h h' inner e he := h' inner e (h inner e he)

/-- A step of a call that knows more afterwards. -/
theorem indexing_step {g g' : Option ArtifactRef} {x x' : Store}
    (hinv : ∀ inner e, x'.index inner = some e → e.inner = inner)
    (hkept : ∀ inner e, x.index inner = some e → x'.index inner = some e)
    (hown : ∀ ref, g' = some ref → x'.Indexed ref) : indexing.Step g g' x x' where
  inv := hinv
  own := hown
  kept := hkept
  frame h hh _ := by
    refine ⟨fun ref href => ?_, trivial⟩
    obtain ⟨e, he, heq⟩ := hh ref href
    exact ⟨e, hkept _ _ he, heq⟩

/-- An operation that is no put keeps what the calls know. -/
theorem indexing_step_of_noPut {op : StoreOp} (hop : NoPut op) (g : Option ArtifactRef)
    (fault : Option (Fault InternalError)) (x : Store) (hinv : indexing.inv x)
    (hown : indexing.own g x) : indexing.Step g g x (contentStore.answer fault op x).2 := by
  have hindex := index_answer hop fault x
  apply indexing_step
  · rw [hindex]
    exact hinv
  · rw [hindex]
    exact fun _ _ h => h
  · rw [show (contentStore.answer fault op x).2.Indexed = x.Indexed from
      funext fun ref => by rw [Store.Indexed, Store.Indexed, hindex]]
    exact hown

/-- A program without puts keeps what its call knows. -/
theorem safe_of_noPut {α : Type} {p : Prog storeOps AppError α} (hp : p.Issues NoPut)
    (g : Option ArtifactRef) :
    indexing.Safe contentStore PutAgrees (fun g' _ => g' = g) g p :=
  Discipline.safe_of_issues hp fun _ hop fault x hinv hown =>
    indexing_step_of_noPut hop g fault x hinv hown

theorem issues_perform {op : StoreOp} (hop : NoPut op) : (perform op).Issues NoPut :=
  ⟨hop, fun _ => trivial⟩

theorem issues_writeAll (seq : ℕ) (out : Option Bytes) : (writeAll seq out).Issues NoPut := by
  cases out with
  | none => trivial
  | some bytes => exact issues_perform (by trivial)

theorem issues_dropSink (seq : ℕ) : (dropSink seq).Issues NoPut :=
  ⟨trivial, fun _ => trivial⟩

theorem issues_lift {α : Type} (r : Except AppError α) :
    (Prog.lift r : Prog storeOps AppError α).Issues NoPut :=
  trivial

theorem issues_streamBody {codec : Codec} (seq : ℕ) (s : Pipeline codec)
    (body : List (Except String Bytes)) : (streamBody seq s body).Issues NoPut := by
  induction body generalizing s with
  | nil => exact (issues_perform (by trivial)).bind fun _ => trivial
  | cons chunk body ih =>
    refine (issues_perform (by trivial)).bind fun _ => (issues_lift _).bind fun r => ?_
    exact (issues_writeAll seq r.1).bind fun _ => ih r.2

theorem issues_streamAll {codec : Codec} (seq : ℕ) (s : Pipeline codec)
    (body : List (Except String Bytes)) : (streamAll seq s body).Issues NoPut := by
  refine (issues_streamBody seq s body).bind fun t => (issues_lift _).bind fun r => ?_
  refine (issues_writeAll seq r.1).bind fun _ => (issues_lift _).bind fun tag => ?_
  exact (issues_writeAll seq (some tag)).bind fun _ => trivial

theorem issues_commitSink (seq : ℕ) (outer : ContentHash) :
    (commitSink seq outer).Issues NoPut := by
  have hexists : (commitSink.tryExists outer).Issues NoPut := by
    refine ⟨trivial, fun r => ?_⟩
    match r with
    | .ok present => trivial
    | .error (.failed e) => trivial
    | .error .dropped => trivial
  refine (issues_perform (by trivial)).bind fun _ => (issues_perform (by trivial)).bind fun _ =>
    hexists.bind fun present => ?_
  cases present with
  | false => exact issues_perform (by trivial)
  | true =>
    refine ⟨trivial, fun r => ?_⟩
    match r with
    | .ok () => trivial
    | .error (.failed e) => trivial
    | .error .dropped => trivial

/-- The lookup makes an entry it finds known. -/
theorem safe_indexGet (inner : ContentHash) (g : Option ArtifactRef) :
    indexing.Safe contentStore PutAgrees (fun g' r => ∀ e, r = .ok (some e) → g' = some e.ref) g
      (perform (.indexGet inner)) := by
  refine Discipline.safe_perform (S := storeOps) fun fault x _ hinv hown => ?_
  have hget : NoPut (.indexGet inner) := trivial
  have hkeep := indexing_step_of_noPut hget g fault x hinv hown
  rcases contentStore.answer_cases fault (.indexGet inner) x with h | ⟨why, x', h, -⟩
  · rw [h] at hkeep ⊢
    dsimp only [contentStore] at hkeep ⊢
    cases hfound : x.index inner with
    | none => exact ⟨g, hkeep, nofun⟩
    | some existing =>
      refine ⟨some existing.ref, indexing_step hinv hkeep.kept fun ref href => ?_, fun e he => ?_⟩
      · cases href
        exact ⟨existing, by rwa [ArtifactEntry.ref, hinv _ _ hfound], rfl⟩
      · cases he
        rfl
  · refine ⟨g, hkeep, ?_⟩
    rw [h]
    nofun

/-- A put keeps the index keyed by the inner hash. -/
theorem inner_put {x : Store} {e : ArtifactEntry}
    (hinv : ∀ inner e', x.index inner = some e' → e'.inner = inner) (inner : ContentHash)
    (e' : ArtifactEntry) (he' : (x.put e).index inner = some e') : e'.inner = inner := by
  unfold Store.put at he'
  split at he'
  · exact hinv inner e' he'
  · dsimp only at he'
    rw [Function.update_apply] at he'
    split at he'
    · rename_i hinner
      rw [hinner, ← Option.some.inj he']
    · exact hinv inner e' he'

/-- After a put there is an entry: the old one, or the new one if there was none. -/
theorem index_put_self (x : Store) (e : ArtifactEntry) :
    (x.put e).index e.inner = some ((x.index e.inner).getD e) := by
  unfold Store.put
  split
  · rename_i hfound
    simp [hfound]
  · rename_i hnone
    simp [hnone]

/-- A put that is answered, as `PutAgrees` allows it, makes its own reference known. -/
theorem safe_indexPut_agreed (e : ArtifactEntry) (g : Option ArtifactRef) :
    indexing.Safe contentStore PutAgrees (fun g' r => r = .ok () → g' = some e.ref) g
      (perform (.indexPut e)) := by
  refine Discipline.safe_perform (S := storeOps) fun fault x hagrees hinv hown => ?_
  cases fault with
  | none =>
    -- The call is answered, so `PutAgrees` says which entry it met.
    refine ⟨some e.ref, indexing_step (inner_put hinv) (fun _ _ => index_put) ?_, fun _ => rfl⟩
    rintro _ ⟨⟩
    refine ⟨_, index_put_self x e, ?_⟩
    cases hfound : x.index e.inner with
    | none => rfl
    | some e' =>
      obtain ⟨houter, hsize⟩ := hagrees e' hfound
      show ArtifactRef.mk e'.inner e'.outer e'.size = ⟨e.inner, e.outer, e.size⟩
      rw [hinv _ _ hfound, houter, hsize]
  | some fault =>
    refine ⟨g, ?_, ?_⟩
    · -- Executed or not, the call gets an error and returns no reference.
      refine Service.forall_answer (S := storeOps) (P := indexing.Step g g x) (.refl hinv hown) ?_
        (fun _ => .refl hinv hown) (some fault)
      refine indexing_step (inner_put hinv) (fun _ _ => index_put) fun ref href => ?_
      obtain ⟨e', he', heq⟩ := hown ref href
      exact ⟨e', index_put he', heq⟩
    · cases fault <;> nofun

/-- A call ends with a reference that it knows to be indexed. -/
theorem safe_publishStream_indexed (codec : Codec) (sha : Sha256) (up : Upload) :
    indexing.Safe contentStore PutAgrees (fun g r => ∀ ref, r = .ok ref → g = some ref) none
      (publishStream codec sha up) := by
  refine (safe_of_noPut (issues_lift _) none).bind_of_kept (fun ⟨cek, nonce⟩ => ?_) fun _ => nofun
  refine (safe_of_noPut (issues_lift _) none).bind_of_kept (fun s => ?_) fun _ => nofun
  -- Nothing up to here writes the index or reads it.
  refine (safe_of_noPut ((issues_perform (by trivial)).bind fun _ => issues_perform (by trivial))
    none).bind ?_ fun _ _ _ => nofun
  rintro _ seq rfl
  -- An entry that the lookup finds is known from then on.
  have hblob : indexing.Safe contentStore PutAgrees
      (fun g r => ∀ e, r = .ok (.inl e) → g = some e.ref) none
      (publishBlob sha cek nonce seq s up.body) := by
    refine (safe_of_noPut (issues_streamAll seq s up.body) none).bind_of_kept (fun a => ?_)
      fun _ => nofun
    refine (safe_indexGet _ none).bind ?_ fun _ _ _ => nofun
    intro g found hg
    cases found with
    | some existing => exact fun e he => by cases he; exact hg existing rfl
    | none =>
      -- The commit says nothing about the index; the put comes behind it.
      exact (safe_of_noPut (issues_commitSink _ _) g).bind_of_kept (fun _ => nofun) fun _ => nofun
  have hsink : indexing.Safe contentStore PutAgrees
      (fun g r => ∀ e, r = .ok (.inl e) → g = some e.ref) none
      (Prog.onStop (dropSink seq) (publishBlob sha cek nonce seq s up.body)) :=
    hblob.onStop (fun _ _ h => h) fun g _ _ =>
      (safe_of_noPut (issues_dropSink seq) g).mono fun _ _ _ => nofun
  refine hsink.bind ?_ fun _ _ _ => nofun
  intro g o hg
  cases o with
  | inl existing =>
    refine (safe_of_noPut (issues_dropSink seq) g).bind_of_kept (fun _ ref href => ?_)
      fun _ => nofun
    cases href
    exact hg existing rfl
  | inr e =>
    refine (safe_indexPut_agreed e g).bind ?_ fun _ _ _ => nofun
    rintro g' ⟨⟩ hg' ref href
    cases href
    exact hg' rfl

/-! ## Every interleaving -/

/-- In every interleaving in which the puts that are answered find no entry of another blob, every
reference that a call has returned is the one of the index entry, also in every later state. So
calls with one plaintext return one reference. -/
theorem published_refs_indexed {ι : Type} [DecidableEq ι] (codec : Codec) (sha : Sha256)
    (calls : ι → Upload) (schedule : List (Sys.Turn storeOps ι))
    (hagrees : Trace.AllMeet (Sys.next contentStore) (Sys.Allowed PutAgrees)
      (startPublishing codec sha calls) schedule) :
    let d := schedule.foldl (Sys.next contentStore) (startPublishing codec sha calls)
    (∀ i ref, d.proc i = .ret (.ok ref) →
      ∀ later, (List.foldl (Sys.next contentStore) d later).shared.Indexed ref) ∧
    ∀ i j ref ref', d.proc i = .ret (.ok ref) → d.proc j = .ret (.ok ref') →
      ref.inner = ref'.inner → ref = ref' := by
  intro d
  have hinit : Sys.Owned indexing contentStore PutAgrees
      (fun g r => ∀ ref, r = .ok ref → g = some ref) (startPublishing codec sha calls) :=
    ⟨nofun, fun _ => none, fun i => ⟨nofun, safe_publishStream_indexed codec sha (calls i)⟩,
      fun _ _ _ => trivial⟩
  have hindexed : ∀ i ref, d.proc i = .ret (.ok ref) → d.shared.Indexed ref := by
    intro i ref href
    obtain ⟨g, hown, hpost⟩ := (hinit.run hagrees).1.own_of_ret href
    exact hown ref (hpost ref rfl)
  refine ⟨fun i ref href later => (hindexed i ref href).foldl later, ?_⟩
  intro i j ref ref' href href' hinner
  obtain ⟨e, he, rfl⟩ := hindexed i ref href
  obtain ⟨e', he', rfl⟩ := hindexed j ref' href'
  rw [hinner, he'] at he
  rw [Option.some.inj he]

/-- The second of two calls with one plaintext starts when the first one is done, and returns its
reference. -/
theorem published_refs_indexed_in_turn :
    let start := startPublishing sampleCodec sampleSha sampleUploads
    let schedule := List.replicate 12 (false, none) ++ List.replicate 8 (true, none)
    let d := schedule.foldl (Sys.next contentStore) start
    Trace.AllMeet (Sys.next contentStore) (Sys.Allowed PutAgrees) start schedule ∧
      ∃ ref, d.proc false = .ret (.ok ref) ∧ d.proc true = .ret (.ok ref) ∧
        d.shared.Indexed ref := by
  intro start schedule d
  have hagrees : Trace.AllMeet (Sys.next contentStore) (Sys.Allowed PutAgrees) start schedule := by
    decide +kernel
  have hfirst : (d.proc false).result? = some (.ok ⟨sampleInner, sampleOuter false, 3⟩) := by
    decide +kernel
  have hsecond : (d.proc true).result? = some (.ok ⟨sampleInner, sampleOuter false, 3⟩) := by
    decide +kernel
  rw [Prog.result?_eq_some_iff] at hfirst hsecond
  -- From here on nothing is to be evaluated.
  clear_value schedule
  exact ⟨hagrees, _, hfirst, hsecond, (published_refs_indexed sampleCodec sampleSha sampleUploads
    schedule hagrees).1 false _ hfirst []⟩

/-- The first of two calls with one plaintext is overtaken between its lookup and its put. It
returns the address of its own blob, while the index has the other one. -/
theorem published_ref_not_indexed :
    let start := startPublishing sampleCodec sampleSha sampleUploads
    let schedule :=
      List.replicate 7 (false, none) ++ List.replicate 12 (true, none) ++
        List.replicate 5 (false, none)
    let d := schedule.foldl (Sys.next contentStore) start
    ∃ ref ref', d.proc false = .ret (.ok ref) ∧ d.proc true = .ret (.ok ref') ∧
      ref.inner = ref'.inner ∧ ref.outer ≠ ref'.outer ∧ ¬ d.shared.Indexed ref := by
  intro start schedule d
  have hfirst : (d.proc false).result? = some (.ok ⟨sampleInner, sampleOuter false, 3⟩) := by
    decide +kernel
  have hsecond : (d.proc true).result? = some (.ok ⟨sampleInner, sampleOuter true, 3⟩) := by
    decide +kernel
  rw [Prog.result?_eq_some_iff] at hfirst hsecond
  have hindex : (d.shared.index sampleInner).map (·.outer) = some (sampleOuter true) := by
    decide +kernel
  clear_value schedule
  exact ⟨_, _, hfirst, hsecond, rfl, by decide, not_indexed_of_outer_ne hindex (by decide)⟩

end SoftwareTower
