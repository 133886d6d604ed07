import SumoProvision.Foundations.Prog

/-!
# Ownership

Reasoning about one program of an interleaving at a time. Each program holds a ghost value that says
what it knows about the shared state and what it alone may change there. A `Discipline` fixes the
invariant of the shared state, what each ghost value says, and which two of them can be held at
once.

`Safe` says of a program that each of its statements keeps the invariant and whatever programs apart
from it hold, under every fault, and that it ends with a postcondition. It has a rule for each way
to build a program (`Safe.bind`, `Safe.onStop`), and `Sys.Owned.run` carries it to every
interleaving.
-/

/-- What programs that share a state of type `σ` agree on; `G` is the type of their ghost values. -/
structure Discipline (σ G : Type) where
  /-- Holds of the shared state between any two statements. -/
  inv : σ → Prop
  /-- What the ghost value says about the shared state. -/
  own : G → σ → Prop
  /-- The two ghost values can be held by two programs. -/
  apart : G → G → Prop
  apart_symm : ∀ {g h}, apart g h → apart h g
  /-- What no statement undoes. -/
  kept : σ → σ → Prop
  kept_refl : ∀ x, kept x x
  kept_trans : ∀ {x y z}, kept x y → kept y z → kept x z

namespace Discipline

variable {S : Signature} {σ G ε α β : Type}

/-- A step of the program that holds `g`: it keeps the invariant and what the others hold. -/
structure Step (D : Discipline σ G) (g g' : G) (x x' : σ) : Prop where
  inv : D.inv x'
  own : D.own g' x'
  kept : D.kept x x'
  frame : ∀ h, D.own h x → D.apart g h → D.own h x' ∧ D.apart g' h

/-- A step that leaves the state alone. -/
theorem Step.refl {D : Discipline σ G} {g : G} {x : σ} (hinv : D.inv x) (hown : D.own g x) :
    D.Step g g x x :=
  ⟨hinv, hown, D.kept_refl x, fun _ hh hgh => ⟨hh, hgh⟩⟩

/-- Every statement of the program that is executed as `allowed` says makes a step, whatever fault
it meets, and the program ends as `post` says. -/
def Safe (D : Discipline σ G) (svc : Service S σ)
    (allowed : S.Stmt → Option (Fault S.Err) → σ → Prop) (post : G → Except (Stop ε) α → Prop) :
    G → Prog S ε α → Prop
  | g, .ret r => post g r
  | g, .call s k => ∀ fault x, allowed s fault x → D.inv x → D.own g x →
      ∃ g', D.Step g g' x (svc.answer fault s x).2 ∧
        Safe D svc allowed post g' (k (svc.answer fault s x).1)

section Rules

variable {D : Discipline σ G} {svc : Service S σ}
  {allowed : S.Stmt → Option (Fault S.Err) → σ → Prop}

theorem Safe.mono {post post' : G → Except (Stop ε) α → Prop} {g : G} {p : Prog S ε α}
    (h : D.Safe svc allowed post g p) (hpost : ∀ g r, post g r → post' g r) :
    D.Safe svc allowed post' g p := by
  induction p generalizing g with
  | ret r => exact hpost g r h
  | call s k ih =>
    intro fault x hallowed hinv hown
    obtain ⟨g', hstep, hrest⟩ := h fault x hallowed hinv hown
    exact ⟨g', hstep, ih _ hrest⟩

/-- A sequence: the second part starts from what the first one ends with. -/
theorem Safe.bind {mid : G → Except (Stop ε) α → Prop} {post : G → Except (Stop ε) β → Prop} {g : G}
    {p : Prog S ε α} {f : α → Prog S ε β} (h : D.Safe svc allowed mid g p)
    (hok : ∀ g a, mid g (.ok a) → D.Safe svc allowed post g (f a))
    (herror : ∀ g e, mid g (.error e) → post g (.error e)) :
    D.Safe svc allowed post g (p >>= f) := by
  induction p generalizing g with
  | ret r =>
    cases r with
    | ok a => exact hok g a h
    | error e => exact herror g e h
  | call s k ih =>
    intro fault x hallowed hinv hown
    obtain ⟨g', hstep, hrest⟩ := h fault x hallowed hinv hown
    exact ⟨g', hstep, ih _ hrest⟩

/-- The rest of a program whose first part leaves what it holds as it is. -/
theorem Safe.bind_of_kept {post : G → Except (Stop ε) β → Prop} {g : G} {p : Prog S ε α}
    {f : α → Prog S ε β} (h : D.Safe svc allowed (fun g' _ => g' = g) g p)
    (hok : ∀ a, D.Safe svc allowed post g (f a)) (herror : ∀ e, post g (.error e)) :
    D.Safe svc allowed post g (p >>= f) := by
  apply h.bind
  · rintro _ a rfl
    exact hok a
  · rintro _ e rfl
    exact herror e

private theorem Safe.discard {post : G → Except (Stop ε) α → Prop} {g : G} {p : Prog S ε Unit}
    {e : Stop ε} (h : D.Safe svc allowed (fun g _ => post g (.error e)) g p) :
    D.Safe svc allowed post g (Prog.onStop.discard p e) := by
  induction p generalizing g with
  | ret r => exact h
  | call s k ih =>
    intro fault x hallowed hinv hown
    obtain ⟨g', hstep, hrest⟩ := h fault x hallowed hinv hown
    exact ⟨g', hstep, ih _ hrest⟩

/-- A program with cleanup: the cleanup starts from what the program has left when it stops. -/
theorem Safe.onStop {mid post : G → Except (Stop ε) α → Prop} {g : G} {p : Prog S ε α}
    {cleanup : Prog S ε Unit} (h : D.Safe svc allowed mid g p)
    (hok : ∀ g a, mid g (.ok a) → post g (.ok a))
    (herror : ∀ g e, mid g (.error e) →
      D.Safe svc allowed (fun g _ => post g (.error e)) g cleanup) :
    D.Safe svc allowed post g (Prog.onStop cleanup p) := by
  induction p generalizing g with
  | ret r =>
    cases r with
    | ok a => exact hok g a h
    | error e => exact (herror g e h).discard
  | call s k ih =>
    intro fault x hallowed hinv hown
    obtain ⟨g', hstep, hrest⟩ := h fault x hallowed hinv hown
    exact ⟨g', hstep, ih _ hrest⟩

/-- One statement, by what it replies. -/
theorem safe_perform {s : S.Stmt} {onErr : S.Err → ε}
    {post : G → Except (Stop ε) (S.Reply s) → Prop} {g : G}
    (h : ∀ fault x, allowed s fault x → D.inv x → D.own g x →
      ∃ g', D.Step g g' x (svc.answer fault s x).2 ∧
        post g' ((svc.answer fault s x).1.mapError (Stop.map onErr))) :
    D.Safe svc allowed post g (Prog.perform s onErr) :=
  h

/-- A program of statements that each keep what it holds. -/
theorem safe_of_issues {P : S.Stmt → Prop} {g : G} {p : Prog S ε α} (hp : p.Issues P)
    (hstep : ∀ s, P s → ∀ fault x, D.inv x → D.own g x → D.Step g g x (svc.answer fault s x).2) :
    D.Safe svc allowed (fun g' _ => g' = g) g p := by
  induction p with
  | ret r => rfl
  | call s k ih =>
    exact fun fault x _ hinv hown => ⟨g, hstep s hp.1 fault x hinv hown, ih _ (hp.2 _)⟩

end Rules

end Discipline

/-! ## Interleavings -/

namespace Sys

variable {S : Signature} {σ G ι ε α : Type} [DecidableEq ι]

/-- The turn executes its statement as `allowed` says. -/
def Allowed (allowed : S.Stmt → Option (Fault S.Err) → σ → Prop) (c : Sys S σ ι ε α)
    (turn : Turn S ι) : Prop :=
  match c.proc turn.1 with
  | .ret _ => True
  | .call s _ => allowed s turn.2 c.shared

instance {allowed : S.Stmt → Option (Fault S.Err) → σ → Prop}
    [∀ s fault x, Decidable (allowed s fault x)] (c : Sys S σ ι ε α) (turn : Turn S ι) :
    Decidable (Allowed allowed c turn) :=
  match h : c.proc turn.1 with
  | .ret _ => .isTrue (by rw [Allowed, h]; trivial)
  | .call s _ => decidable_of_iff (allowed s turn.2 c.shared) (by rw [Allowed, h])

/-- The programs hold ghost values apart from each other with which they are safe. -/
def Owned (D : Discipline σ G) (svc : Service S σ)
    (allowed : S.Stmt → Option (Fault S.Err) → σ → Prop) (post : G → Except (Stop ε) α → Prop)
    (c : Sys S σ ι ε α) : Prop :=
  D.inv c.shared ∧ ∃ held : ι → G,
    (∀ i, D.own (held i) c.shared ∧ D.Safe svc allowed post (held i) (c.proc i)) ∧
      ∀ i j, i ≠ j → D.apart (held i) (held j)

variable {D : Discipline σ G} {svc : Service S σ}
  {allowed : S.Stmt → Option (Fault S.Err) → σ → Prop} {post : G → Except (Stop ε) α → Prop}
  {c : Sys S σ ι ε α}

/-- A turn keeps the ownership and undoes nothing. -/
theorem Owned.next {turn : Turn S ι} (h : Owned D svc allowed post c)
    (hallowed : Allowed allowed c turn) :
    Owned D svc allowed post (Sys.next svc c turn) ∧
      D.kept c.shared (Sys.next svc c turn).shared := by
  obtain ⟨hinv, held, hheld, hapart⟩ := h
  obtain ⟨i, fault⟩ := turn
  cases hproc : c.proc i with
  | ret r =>
    rw [Sys.next, step_of_ret hproc]
    exact ⟨⟨hinv, held, hheld, hapart⟩, D.kept_refl _⟩
  | call s k =>
    have hsafe := (hheld i).2
    rw [hproc] at hsafe
    simp only [Allowed, hproc] at hallowed
    obtain ⟨g', hstep, hrest⟩ := hsafe fault c.shared hallowed hinv (hheld i).1
    rw [Sys.next, step_of_call hproc]
    -- Program `i` holds `g'` from now on, the others hold what they held.
    refine ⟨⟨hstep.inv, Function.update held i g', fun j => ?_, fun j k hjk => ?_⟩, hstep.kept⟩
    · by_cases hj : j = i
      · subst hj
        simpa using ⟨hstep.own, hrest⟩
      · rw [Function.update_of_ne hj]
        dsimp only
        rw [Function.update_of_ne hj]
        -- `j` is apart from `i`, so the step left it what it holds.
        exact ⟨(hstep.frame _ (hheld j).1 (hapart i j (Ne.symm hj))).1, (hheld j).2⟩
    · -- Of two programs at most one made the step.
      by_cases hj : j = i
      · subst hj
        rw [Function.update_self, Function.update_of_ne hjk.symm]
        exact (hstep.frame _ (hheld k).1 (hapart j k hjk)).2
      · rw [Function.update_of_ne hj]
        by_cases hk : k = i
        · subst hk
          rw [Function.update_self]
          exact D.apart_symm (hstep.frame _ (hheld j).1 (hapart k j hjk.symm)).2
        · rw [Function.update_of_ne hk]
          exact hapart j k hjk

/-- Every interleaving keeps the ownership and undoes nothing. -/
theorem Owned.run {schedule : List (Turn S ι)} (h : Owned D svc allowed post c)
    (hallowed : Trace.AllMeet (Sys.next svc) (Allowed allowed) c schedule) :
    Owned D svc allowed post (schedule.foldl (Sys.next svc) c) ∧
      D.kept c.shared (schedule.foldl (Sys.next svc) c).shared := by
  refine hallowed.invariant (P := fun d => Owned D svc allowed post d ∧ D.kept c.shared d.shared)
    ⟨h, D.kept_refl _⟩ fun d turn _ hd hturn => ?_
  obtain ⟨hnext, hkept⟩ := hd.1.next hturn
  exact ⟨hnext, D.kept_trans hd.2 hkept⟩

omit [DecidableEq ι] in
/-- A program that has ended holds what its postcondition says. -/
theorem Owned.own_of_ret {i : ι} {r : Except (Stop ε) α} (h : Owned D svc allowed post c)
    (hret : c.proc i = .ret r) : ∃ g, D.own g c.shared ∧ post g r := by
  obtain ⟨-, held, hheld, -⟩ := h
  obtain ⟨hown, hsafe⟩ := hheld i
  rw [hret] at hsafe
  exact ⟨held i, hown, hsafe⟩

end Sys
