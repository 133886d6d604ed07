import Mathlib.Data.Nat.Notation
import Mathlib.Logic.Function.Basic
import SumoProvision.Foundations.Result

/-!
# Programs over a fallible service

A program issues one statement after the other to a service that holds the state, and ends with a
result. A statement is atomic; everything between two statements is private to the program. This is
the shape of a request handler over a database or a file system without transactions.

* `Prog` is the type of programs, a monad in which an error ends the program.
* `Service` executes statements, and `Fault` says how an execution can go wrong: the statement does
  not run, or runs and its reply is lost, or leaves part of its effect. In each case the program
  sees an error, or is dropped while it waits.
* `run` executes one program alone, under a schedule of faults.
* `Trace.AllMeet` says that every step of a sequence meets a condition in the state it starts from.
* `Sys` is a family of programs over one service, and `Sys.step` lets one of them execute one
  statement. An interleaving is a sequence of turns.
-/

/-- The statements of a service, what each of them replies, and its errors. -/
structure Signature where
  Stmt : Type
  Reply : Stmt → Type
  Err : Type

/-- Why a program ends without a result: by an error, or because it was dropped while waiting. -/
inductive Stop (ε : Type) where
  | failed (e : ε)
  | dropped
  deriving DecidableEq

/-- Translate the error. -/
def Stop.map {ε ε' : Type} (f : ε → ε') : Stop ε → Stop ε'
  | .failed e => .failed (f e)
  | .dropped => .dropped

/-- A program: an end, or a statement and how to go on with the answer to it. -/
inductive Prog (S : Signature) (ε α : Type) where
  | ret (r : Except (Stop ε) α)
  | call (s : S.Stmt) (k : Except (Stop S.Err) (S.Reply s) → Prog S ε α)

namespace Prog

variable {S : Signature} {ε α β : Type}

/-- Go on with the result; an error ends the program. -/
def bind : Prog S ε α → (α → Prog S ε β) → Prog S ε β
  | ret (.ok a), f => f a
  | ret (.error e), _ => ret (.error e)
  | call s k, f => call s fun r => bind (k r) f

instance : Monad (Prog S ε) where
  pure a := ret (.ok a)
  bind := bind

/-- Run `cleanup` if the program ends without a result, whatever comes of it. -/
def onStop (cleanup : Prog S ε Unit) : Prog S ε α → Prog S ε α
  | ret (.ok a) => ret (.ok a)
  -- The error that ended the program is what remains, also when the cleanup fails itself.
  | ret (.error e) => discard cleanup e
  | call s k => call s fun r => onStop cleanup (k r)
where
  /-- Run a program and end with the given error. -/
  discard : Prog S ε Unit → Stop ε → Prog S ε α
  | ret _, e => ret (.error e)
  | call s k, e => call s fun r => discard (k r) e

/-- Execute one statement, translating its error. -/
def perform (s : S.Stmt) (onErr : S.Err → ε) : Prog S ε (S.Reply s) :=
  call s fun r => ret (r.mapError (Stop.map onErr))

/-- Execute one statement for its effect. -/
def execute (s : S.Stmt) (onErr : S.Err → ε) : Prog S ε Unit :=
  call s fun r => ret ((r.mapError (Stop.map onErr)).map fun _ => ())

/-- A computation without statements, the `?` on a plain result. -/
def lift (r : Except ε α) : Prog S ε α :=
  ret (r.mapError .failed)

/-- One run of `body` for each element. -/
def forEach (l : List β) (body : β → Prog S ε Unit) : Prog S ε Unit :=
  match l with
  | [] => pure ()
  | b :: l => do
    body b
    forEach l body

/-- The results of one run of `body` for each element, in order. -/
def collect (l : List β) (body : β → Prog S ε α) : Prog S ε (List α) :=
  match l with
  | [] => pure []
  | b :: l => do
    let a ← body b
    let as ← collect l body
    return a :: as

/-- Every statement the program can issue satisfies `P`. -/
def Issues (P : S.Stmt → Prop) : Prog S ε α → Prop
  | ret _ => True
  | call s k => P s ∧ ∀ r, Issues P (k r)

/-- The program ends after at most `n` statements, whatever their answers. -/
def EndsWithin : ℕ → Prog S ε α → Prop
  | _, ret _ => True
  -- A statement is left although none is allowed any more.
  | 0, call _ _ => False
  | n + 1, call _ k => ∀ r, EndsWithin n (k r)

/-- The result of a program that has ended. -/
def result? : Prog S ε α → Option (Except (Stop ε) α)
  | ret r => some r
  | call _ _ => none

theorem result?_eq_some_iff {p : Prog S ε α} {r : Except (Stop ε) α} :
    p.result? = some r ↔ p = ret r := by
  cases p <;> simp [result?]

@[simp] theorem pure_eq (a : α) : (pure a : Prog S ε α) = ret (.ok a) := rfl

@[simp] theorem bind_ok (a : α) (f : α → Prog S ε β) : (ret (.ok a) >>= f) = f a := rfl

@[simp] theorem bind_error (e : Stop ε) (f : α → Prog S ε β) :
    (ret (.error e) >>= f) = ret (.error e) := rfl

@[simp] theorem bind_call (s : S.Stmt) (k : Except (Stop S.Err) (S.Reply s) → Prog S ε α)
    (f : α → Prog S ε β) : (call s k >>= f) = call s fun r => k r >>= f := rfl

theorem lift_ok_bind (a : α) (f : α → Prog S ε β) : (lift (.ok a) >>= f) = f a := rfl

@[simp] theorem forEach_nil (body : β → Prog S ε Unit) : forEach [] body = ret (.ok ()) := rfl

@[simp] theorem forEach_cons (b : β) (l : List β) (body : β → Prog S ε Unit) :
    forEach (b :: l) body = (body b >>= fun _ => forEach l body) := rfl

@[simp] theorem collect_nil (body : β → Prog S ε α) : collect [] body = ret (.ok []) := rfl

@[simp] theorem collect_cons (b : β) (l : List β) (body : β → Prog S ε α) :
    collect (b :: l) body =
      (body b >>= fun a => collect l body >>= fun as => ret (.ok (a :: as))) := rfl

theorem Issues.bind {P : S.Stmt → Prop} {p : Prog S ε α} {f : α → Prog S ε β} (hp : p.Issues P)
    (hf : ∀ a, (f a).Issues P) : (p >>= f).Issues P := by
  induction p with
  | ret r =>
    cases r with
    | ok a => exact hf a
    | error e => trivial
  | call s k ih => exact ⟨hp.1, fun r => ih r (hp.2 r)⟩

theorem issues_true (p : Prog S ε α) : p.Issues fun _ => True := by
  induction p with
  | ret r => trivial
  | call s k ih => exact ⟨trivial, ih⟩

theorem issues_perform {P : S.Stmt → Prop} {s : S.Stmt} (hs : P s) (onErr : S.Err → ε) :
    (perform s onErr).Issues P :=
  ⟨hs, fun _ => trivial⟩

theorem issues_execute {P : S.Stmt → Prop} {s : S.Stmt} (hs : P s) (onErr : S.Err → ε) :
    (execute s onErr).Issues P :=
  ⟨hs, fun _ => trivial⟩

theorem endsWithin_ret (n : ℕ) (r : Except (Stop ε) α) : (ret r : Prog S ε α).EndsWithin n := by
  cases n <;> trivial

theorem EndsWithin.mono {p : Prog S ε α} {m n : ℕ} (hp : p.EndsWithin m) (h : m ≤ n) :
    p.EndsWithin n := by
  induction p generalizing m n with
  | ret r => exact endsWithin_ret _ _
  | call s k ih =>
    -- Both bounds allow the statement that the program starts with.
    obtain ⟨m, rfl⟩ : ∃ m', m = m' + 1 := by
      cases m with
      | zero => exact hp.elim
      | succ m => exact ⟨m, rfl⟩
    obtain ⟨n, rfl⟩ : ∃ n', n = n' + 1 := ⟨n - 1, by omega⟩
    exact fun r => ih r (hp r) (by omega)

theorem EndsWithin.bind {p : Prog S ε α} {f : α → Prog S ε β} {m n : ℕ} (hp : p.EndsWithin m)
    (hf : ∀ a, (f a).EndsWithin n) : (p >>= f).EndsWithin (m + n) := by
  induction p generalizing m with
  | ret r =>
    cases r with
    | ok a =>
      rw [bind_ok]
      -- The first program has ended, so the whole bound is left for the second.
      exact (hf a).mono (by omega)
    | error e => exact endsWithin_ret _ _
  | call s k ih =>
    cases m with
    | zero => exact hp.elim
    | succ m =>
      rw [Nat.succ_add]
      exact fun r => ih r (hp r)

theorem endsWithin_perform (s : S.Stmt) (onErr : S.Err → ε) : (perform s onErr).EndsWithin 1 :=
  fun _ => endsWithin_ret _ _

theorem endsWithin_execute (s : S.Stmt) (onErr : S.Err → ε) : (execute s onErr).EndsWithin 1 :=
  fun _ => endsWithin_ret _ _

/-- A loop of one statement ends within as many statements as it has elements. -/
theorem endsWithin_forEach {l : List β} {body : β → Prog S ε Unit}
    (h : ∀ b, (body b).EndsWithin 1) : (forEach l body).EndsWithin l.length := by
  induction l with
  | nil => exact endsWithin_ret _ _
  | cons b l ih =>
    rw [forEach_cons, List.length_cons, Nat.add_comm]
    exact (h b).bind fun _ => ih

end Prog

/-! ## The service -/

/-- A service: what a statement does, and what is left of it if it is cut off. -/
structure Service (S : Signature) (σ : Type) where
  exec : (s : S.Stmt) → σ → Except S.Err (S.Reply s) × σ
  /-- The state that the statement leaves if it is cut off at point `n`. -/
  tear : ℕ → S.Stmt → σ → σ := fun _ _ x => x

/-- How the execution of a statement can go wrong from outside. -/
inductive Fault (ε : Type) where
  /-- The statement is not executed. -/
  | rejected (why : Stop ε)
  /-- The statement is executed and its reply is lost. -/
  | lost (why : Stop ε)
  /-- The statement is cut off. -/
  | torn (n : ℕ) (why : Stop ε)
  deriving DecidableEq

/-- What a faulty execution is answered with. -/
def Fault.why {ε : Type} : Fault ε → Stop ε
  | .rejected why | .lost why | .torn _ why => why

namespace Service

variable {S : Signature} {σ : Type}

/-- The answer to a statement and the state after it. -/
def answer (svc : Service S σ) (fault : Option (Fault S.Err)) (s : S.Stmt) (x : σ) :
    Except (Stop S.Err) (S.Reply s) × σ :=
  match fault with
  | none => ((svc.exec s x).1.mapError .failed, (svc.exec s x).2)
  | some (.rejected why) => (.error why, x)
  | some (.lost why) => (.error why, (svc.exec s x).2)
  | some (.torn n why) => (.error why, svc.tear n s x)

variable {svc : Service S σ} {s : S.Stmt} {x x' : σ}

theorem answer_none_of_ok {r : S.Reply s} (h : svc.exec s x = (.ok r, x')) :
    svc.answer none s x = (.ok r, x') := by
  simp [answer, h]

theorem answer_none_of_error {e : S.Err} (h : svc.exec s x = (.error e, x')) :
    svc.answer none s x = (.error (.failed e), x') := by
  simp [answer, h]

theorem answer_lost {r : Except S.Err (S.Reply s)} (h : svc.exec s x = (r, x')) (why : Stop S.Err) :
    svc.answer (some (.lost why)) s x = (.error why, x') := by
  simp [answer, h]

/-- A fault on a statement that leaves the state as it is, executed or cut off, is an error that
leaves it so. -/
theorem exists_answer_of_fault (hexec : (svc.exec s x).2 = x) (htear : ∀ n, svc.tear n s x = x)
    (fault : Fault S.Err) : ∃ why, svc.answer (some fault) s x = (.error why, x) := by
  cases fault with
  | rejected why => exact ⟨why, rfl⟩
  | lost why => exact ⟨why, congrArg (Prod.mk _) hexec⟩
  | torn n why => exact ⟨why, congrArg (Prod.mk _) (htear n)⟩

/-- Only a statement that meets no fault is answered with a result. -/
theorem answer_eq_ok_iff {fault : Option (Fault S.Err)} {r : S.Reply s} :
    svc.answer fault s x = (.ok r, x') ↔ fault = none ∧ svc.exec s x = (.ok r, x') := by
  match fault with
  | none => simp [answer, Prod.ext_iff]
  | some (.rejected why) => simp [answer]
  | some (.lost why) => simp [answer]
  | some (.torn n why) => simp [answer]

/-- Either the statement is executed and answered, or its answer is an error and the state is the
one before it, the one after it, or the one it leaves when cut off. -/
theorem answer_cases (svc : Service S σ) (fault : Option (Fault S.Err)) (s : S.Stmt) (x : σ) :
    svc.answer fault s x = ((svc.exec s x).1.mapError .failed, (svc.exec s x).2) ∨
      ∃ why x', svc.answer fault s x = (.error why, x') ∧
        (x' = x ∨ x' = (svc.exec s x).2 ∨ ∃ n, x' = svc.tear n s x) := by
  match fault with
  | none => exact .inl rfl
  | some (.rejected why) => exact .inr ⟨why, x, rfl, .inl rfl⟩
  | some (.lost why) => exact .inr ⟨why, _, rfl, .inr (.inl rfl)⟩
  | some (.torn n why) => exact .inr ⟨why, _, rfl, .inr (.inr ⟨n, rfl⟩)⟩

/-- What holds of the states before and after a statement, and of those it leaves when cut off,
holds of the state it is answered with. -/
theorem forall_answer {P : σ → Prop} (hbefore : P x) (hafter : P (svc.exec s x).2)
    (htear : ∀ n, P (svc.tear n s x)) (fault : Option (Fault S.Err)) :
    P (svc.answer fault s x).2 := by
  rcases svc.answer_cases fault s x with h | ⟨why, x', h, rfl | rfl | ⟨n, rfl⟩⟩
  · rwa [h]
  · rwa [h]
  · rwa [h]
  · rw [h]
    exact htear n

/-- A statement that fails or is cut off leaves the state as it is. -/
structure Atomic (svc : Service S σ) : Prop where
  failed : ∀ s x e, (svc.exec s x).1 = .error e → (svc.exec s x).2 = x
  torn : ∀ n s x, svc.tear n s x = x

/-- If its reply is not lost, a statement of such a service is executed and answered with a result,
or it has no effect. -/
theorem Atomic.answer_cases (hsvc : svc.Atomic) {fault : Option (Fault S.Err)}
    (hfault : ∀ why, fault ≠ some (.lost why)) (s : S.Stmt) (x : σ) :
    (∃ why, svc.answer fault s x = (.error why, x)) ∨
      ∃ r x', svc.exec s x = (.ok r, x') ∧ svc.answer fault s x = (.ok r, x') := by
  match fault with
  | none =>
    rcases hexec : svc.exec s x with ⟨e | r, x'⟩
    · have hsame := hsvc.failed s x e (congrArg Prod.fst hexec)
      rw [hexec] at hsame
      obtain rfl : x' = x := hsame
      exact .inl ⟨_, answer_none_of_error hexec⟩
    · exact .inr ⟨r, x', rfl, answer_none_of_ok hexec⟩
  | some (.rejected why) => exact .inl ⟨why, rfl⟩
  | some (.lost why) => exact absurd rfl (hfault why)
  | some (.torn n why) => exact .inl ⟨why, congrArg (Prod.mk _) (hsvc.torn n s x)⟩

end Service

/-! ## One program alone -/

namespace Prog

variable {S : Signature} {σ ε α β : Type}

/-- Execute a program; the `n`-th statement meets the `n`-th fault of the schedule, if there is one
there. Ends with the result, the rest of the schedule and the state. -/
def run (svc : Service S σ) :
    Prog S ε α → List (Option (Fault S.Err)) → σ →
      Except (Stop ε) α × List (Option (Fault S.Err)) × σ
  | ret r, faults, x => (r, faults, x)
  | call s k, faults, x =>
    let a := svc.answer faults.head?.join s x
    run svc (k a.1) faults.tail a.2

variable {svc : Service S σ}

@[simp] theorem run_ret (r : Except (Stop ε) α) (faults : List (Option (Fault S.Err))) (x : σ) :
    run svc (ret r) faults x = (r, faults, x) := rfl

theorem run_call (s : S.Stmt) (k : Except (Stop S.Err) (S.Reply s) → Prog S ε α)
    (faults : List (Option (Fault S.Err))) (x : σ) :
    run svc (call s k) faults x =
      run svc (k (svc.answer faults.head?.join s x).1) faults.tail
        (svc.answer faults.head?.join s x).2 := rfl

/-- A sequence runs its first part, and its second part on a result. -/
theorem run_bind (p : Prog S ε α) (f : α → Prog S ε β) (faults : List (Option (Fault S.Err)))
    (x : σ) :
    run svc (p >>= f) faults x =
      match run svc p faults x with
      | (.ok a, faults', x') => run svc (f a) faults' x'
      | (.error e, faults', x') => (.error e, faults', x') := by
  induction p generalizing faults x with
  | ret r => cases r <;> rfl
  | call s k ih => exact ih _ _ _

/-- The fault that the statement with the given number meets. -/
def faultAt {ε : Type} (faults : List (Option (Fault ε))) (n : ℕ) : Option (Fault ε) :=
  (faults[n]?).join

@[simp] theorem faultAt_nil {ε : Type} (n : ℕ) :
    faultAt ([] : List (Option (Fault ε))) n = none := rfl

theorem faultAt_zero {ε : Type} (faults : List (Option (Fault ε))) :
    faultAt faults 0 = faults.head?.join := by
  rw [faultAt, List.head?_eq_getElem?]

theorem faultAt_succ {ε : Type} (faults : List (Option (Fault ε))) (n : ℕ) :
    faultAt faults (n + 1) = faultAt faults.tail n := by
  rw [faultAt, faultAt, List.getElem?_tail]

theorem run_bind_of_ok {p : Prog S ε α} {faults faults' : List (Option (Fault S.Err))} {x x' : σ}
    {a : α} (h : run svc p faults x = (.ok a, faults', x')) (f : α → Prog S ε β) :
    run svc (p >>= f) faults x = run svc (f a) faults' x' := by
  rw [run_bind, h]

theorem run_bind_of_error {p : Prog S ε α} {faults faults' : List (Option (Fault S.Err))} {x x' : σ}
    {e : Stop ε} (h : run svc p faults x = (.error e, faults', x')) (f : α → Prog S ε β) :
    run svc (p >>= f) faults x = (.error e, faults', x') := by
  rw [run_bind, h]

theorem run_perform_of_ok {s : S.Stmt} {faults : List (Option (Fault S.Err))} {x x' : σ}
    {r : S.Reply s} (h : svc.answer (faultAt faults 0) s x = (.ok r, x')) (onErr : S.Err → ε) :
    run svc (perform s onErr) faults x = (.ok r, faults.tail, x') := by
  rw [perform, run_call, ← faultAt_zero, h]
  rfl

theorem run_perform_of_error {s : S.Stmt} {faults : List (Option (Fault S.Err))} {x x' : σ}
    {e : Stop S.Err} (h : svc.answer (faultAt faults 0) s x = (.error e, x')) (onErr : S.Err → ε) :
    run svc (perform s onErr) faults x = (.error (e.map onErr), faults.tail, x') := by
  rw [perform, run_call, ← faultAt_zero, h]
  rfl

theorem run_execute_of_ok {s : S.Stmt} {faults : List (Option (Fault S.Err))} {x x' : σ}
    {r : S.Reply s} (h : svc.answer (faultAt faults 0) s x = (.ok r, x')) (onErr : S.Err → ε) :
    run svc (execute s onErr) faults x = (.ok (), faults.tail, x') := by
  rw [execute, run_call, ← faultAt_zero, h]
  rfl

theorem run_execute_of_error {s : S.Stmt} {faults : List (Option (Fault S.Err))} {x x' : σ}
    {e : Stop S.Err} (h : svc.answer (faultAt faults 0) s x = (.error e, x')) (onErr : S.Err → ε) :
    run svc (execute s onErr) faults x = (.error (e.map onErr), faults.tail, x') := by
  rw [execute, run_call, ← faultAt_zero, h]
  rfl

/-! ### Runs that end with a result -/

theorem run_bind_eq_ok_iff {p : Prog S ε α} {f : α → Prog S ε β}
    {faults rest : List (Option (Fault S.Err))} {x y : σ} {b : β} :
    run svc (p >>= f) faults x = (.ok b, rest, y) ↔
      ∃ a faults' x', run svc p faults x = (.ok a, faults', x') ∧
        run svc (f a) faults' x' = (.ok b, rest, y) := by
  rw [run_bind]
  rcases run svc p faults x with ⟨e | a, faults', x'⟩
  · simp
  · exact ⟨fun h => ⟨a, faults', x', rfl, h⟩, fun ⟨_, _, _, ha, h⟩ => by cases ha; exact h⟩

theorem run_perform_eq_ok_iff {s : S.Stmt} {onErr : S.Err → ε}
    {faults rest : List (Option (Fault S.Err))} {x y : σ} {r : S.Reply s} :
    run svc (perform s onErr) faults x = (.ok r, rest, y) ↔
      faultAt faults 0 = none ∧ rest = faults.tail ∧ svc.exec s x = (.ok r, y) := by
  constructor
  · intro h
    rcases hanswer : svc.answer (faultAt faults 0) s x with ⟨e | r', y'⟩
    · rw [run_perform_of_error hanswer] at h
      cases h
    · rw [run_perform_of_ok hanswer] at h
      cases h
      obtain ⟨hfault, hexec⟩ := Service.answer_eq_ok_iff.mp hanswer
      exact ⟨hfault, rfl, hexec⟩
  · rintro ⟨hfault, rfl, hexec⟩
    exact run_perform_of_ok (Service.answer_eq_ok_iff.mpr ⟨hfault, hexec⟩) onErr

theorem run_execute_eq_ok_iff {s : S.Stmt} {onErr : S.Err → ε}
    {faults rest : List (Option (Fault S.Err))} {x y : σ} :
    run svc (execute s onErr) faults x = (.ok (), rest, y) ↔
      faultAt faults 0 = none ∧ rest = faults.tail ∧ ∃ r, svc.exec s x = (.ok r, y) := by
  constructor
  · intro h
    rcases hanswer : svc.answer (faultAt faults 0) s x with ⟨e | r', y'⟩
    · rw [run_execute_of_error hanswer] at h
      cases h
    · rw [run_execute_of_ok hanswer] at h
      cases h
      obtain ⟨hfault, hexec⟩ := Service.answer_eq_ok_iff.mp hanswer
      exact ⟨hfault, rfl, r', hexec⟩
  · rintro ⟨hfault, rfl, r, hexec⟩
    exact run_execute_of_ok (Service.answer_eq_ok_iff.mpr ⟨hfault, hexec⟩) onErr

theorem run_lift_eq_ok_iff {r : Except ε α} {faults rest : List (Option (Fault S.Err))} {x y : σ}
    {a : α} : run svc (lift r) faults x = (.ok a, rest, y) ↔ r = .ok a ∧ faults = rest ∧ x = y := by
  rw [lift, run_ret, Prod.mk.injEq, Prod.mk.injEq, Except.mapError_eq_ok_iff]

theorem run_lift_bind_eq_ok_iff {r : Except ε α} {f : α → Prog S ε β}
    {faults rest : List (Option (Fault S.Err))} {x y : σ} {b : β} :
    run svc (lift r >>= f) faults x = (.ok b, rest, y) ↔
      ∃ a, r = .ok a ∧ run svc (f a) faults x = (.ok b, rest, y) := by
  rw [run_bind_eq_ok_iff]
  constructor
  · rintro ⟨a, _, _, hlift, hrun⟩
    obtain ⟨hr, rfl, rfl⟩ := run_lift_eq_ok_iff.mp hlift
    exact ⟨a, hr, hrun⟩
  · rintro ⟨a, hr, hrun⟩
    exact ⟨a, faults, x, run_lift_eq_ok_iff.mpr ⟨hr, rfl, rfl⟩, hrun⟩

/-- A program with a cleanup ends as it does alone; if that is not with a result, the cleanup has
run. -/
theorem run_onStop (cleanup : Prog S ε Unit) (p : Prog S ε α)
    (faults : List (Option (Fault S.Err))) (x : σ) :
    run svc (onStop cleanup p) faults x =
      match run svc p faults x with
      | (.ok a, faults', x') => (.ok a, faults', x')
      | (.error e, faults', x') => (.error e, (run svc cleanup faults' x').2) := by
  have hdiscard : ∀ (q : Prog S ε Unit) (e : Stop ε) (faults : List (Option (Fault S.Err))) (x : σ),
      run svc (onStop.discard q e : Prog S ε α) faults x = (.error e, (run svc q faults x).2) := by
    intro q e
    induction q with
    | ret r => exact fun faults x => rfl
    | call s k ih => exact fun faults x => ih _ _ _
  induction p generalizing faults x with
  | ret r =>
    cases r with
    | ok a => rfl
    | error e => exact hdiscard cleanup e faults x
  | call s k ih => exact ih _ _ _

theorem run_onStop_eq_ok_iff {cleanup : Prog S ε Unit} {p : Prog S ε α}
    {faults rest : List (Option (Fault S.Err))} {x y : σ} {a : α} :
    run svc (onStop cleanup p) faults x = (.ok a, rest, y) ↔
      run svc p faults x = (.ok a, rest, y) := by
  rw [run_onStop]
  rcases run svc p faults x with ⟨e | b, faults', x'⟩
  · simp
  · rfl

theorem mem_of_faultAt_eq_some {ε : Type} {faults : List (Option (Fault ε))} {n : ℕ} {f : Fault ε}
    (h : faultAt faults n = some f) : some f ∈ faults := by
  rw [faultAt, Option.join_eq_some_iff] at h
  exact List.mem_of_getElem? h

section Queries

variable {stmt : β → S.Stmt} {reply : ∀ b, S.Reply (stmt b)} {onErr : S.Err → ε}
  {view : ∀ b, S.Reply (stmt b) → α} {x : σ}

/-- A loop of one query for each element, without faults. -/
theorem run_collect_queries (hexec : ∀ b, svc.exec (stmt b) x = (.ok (reply b), x)) (l : List β) :
    run svc (collect l fun b => perform (stmt b) onErr >>= fun r => ret (.ok (view b r))) [] x =
      (.ok (l.map fun b => view b (reply b)), [], x) := by
  induction l with
  | nil => rfl
  | cons b l ih =>
    have hb : run svc (perform (stmt b) onErr) [] x = (.ok (reply b), [], x) :=
      run_perform_of_ok (Service.answer_none_of_ok (hexec b)) onErr
    rw [collect_cons, run_bind_of_ok (run_bind_of_ok hb _), run_bind_of_ok ih]
    rfl

/-- A loop of one query for each element that ends with a result, whatever faults it met. -/
theorem of_run_collect_queries (hexec : ∀ b, svc.exec (stmt b) x = (.ok (reply b), x))
    {l : List β} {faults rest : List (Option (Fault S.Err))} {y : σ} {as : List α}
    (h : run svc (collect l fun b => perform (stmt b) onErr >>= fun r => ret (.ok (view b r)))
      faults x = (.ok as, rest, y)) : as = (l.map fun b => view b (reply b)) ∧ x = y := by
  induction l generalizing faults rest y as with
  | nil =>
    obtain ⟨rfl, -, rfl⟩ : as = [] ∧ faults = rest ∧ x = y := by
      simpa [eq_comm] using h
    exact ⟨rfl, rfl⟩
  | cons b l ih =>
    obtain ⟨a, faults₁, x₁, hb, h⟩ := run_bind_eq_ok_iff.mp h
    obtain ⟨r, faults₂, x₂, hquery, hview⟩ := run_bind_eq_ok_iff.mp hb
    obtain ⟨-, -, hr⟩ := run_perform_eq_ok_iff.mp hquery
    obtain ⟨rfl, rfl⟩ : reply b = r ∧ x = x₂ := by
      simpa [hexec b] using hr
    obtain ⟨rfl, -, rfl⟩ : a = view b (reply b) ∧ faults₂ = faults₁ ∧ x = x₁ := by
      simpa [eq_comm] using hview
    obtain ⟨as', faults₃, x₃, hl, h⟩ := run_bind_eq_ok_iff.mp h
    obtain ⟨rfl, rfl⟩ := ih hl
    obtain ⟨rfl, -, rfl⟩ : as = _ ∧ faults₃ = rest ∧ x = y := by
      simpa [eq_comm] using h
    exact ⟨rfl, rfl⟩

end Queries

/-- A statement of an atomic service, while no reply is lost: it is executed and answered with its
result, or it fails without an effect. -/
theorem run_perform_atomic (hsvc : svc.Atomic) {faults : List (Option (Fault S.Err))}
    (hfaults : ∀ why, some (.lost why) ∉ faults) (s : S.Stmt) (onErr : S.Err → ε) (x : σ) :
    (∃ e, run svc (perform s onErr) faults x = (.error e, faults.tail, x)) ∨
      ∃ r y, svc.exec s x = (.ok r, y) ∧
        run svc (perform s onErr) faults x = (.ok r, faults.tail, y) := by
  have hfault : ∀ why, faultAt faults 0 ≠ some (.lost why) :=
    fun why h => hfaults why (mem_of_faultAt_eq_some h)
  rcases hsvc.answer_cases hfault s x with ⟨why, hanswer⟩ | ⟨r, y, hexec, hanswer⟩
  · exact .inl ⟨_, run_perform_of_error hanswer onErr⟩
  · exact .inr ⟨r, y, hexec, run_perform_of_ok hanswer onErr⟩

/-- Such a statement in front of a program: the program ends without an effect, or the statement is
executed and the program goes on. -/
theorem run_perform_bind_atomic (hsvc : svc.Atomic) {faults : List (Option (Fault S.Err))}
    (hfaults : ∀ why, some (.lost why) ∉ faults) (s : S.Stmt) (onErr : S.Err → ε)
    (f : S.Reply s → Prog S ε α) (x : σ) :
    (∃ e, run svc (perform s onErr >>= f) faults x = (.error e, faults.tail, x)) ∨
      ∃ r y, svc.exec s x = (.ok r, y) ∧
        run svc (perform s onErr >>= f) faults x = run svc (f r) faults.tail y := by
  rcases run_perform_atomic hsvc hfaults s onErr x with ⟨e, hrun⟩ | ⟨r, y, hexec, hrun⟩
  · exact .inl ⟨e, run_bind_of_error hrun f⟩
  · exact .inr ⟨r, y, hexec, run_bind_of_ok hrun f⟩

theorem run_execute_bind_atomic (hsvc : svc.Atomic) {faults : List (Option (Fault S.Err))}
    (hfaults : ∀ why, some (.lost why) ∉ faults) (s : S.Stmt) (onErr : S.Err → ε)
    (f : Unit → Prog S ε α) (x : σ) :
    (∃ e, run svc (execute s onErr >>= f) faults x = (.error e, faults.tail, x)) ∨
      ∃ r y, svc.exec s x = (.ok r, y) ∧
        run svc (execute s onErr >>= f) faults x = run svc (f ()) faults.tail y := by
  have hfault : ∀ why, faultAt faults 0 ≠ some (.lost why) :=
    fun why h => hfaults why (mem_of_faultAt_eq_some h)
  rcases hsvc.answer_cases hfault s x with ⟨why, hanswer⟩ | ⟨r, y, hexec, hanswer⟩
  · exact .inl ⟨_, run_bind_of_error (run_execute_of_error hanswer onErr) f⟩
  · exact .inr ⟨r, y, hexec, run_bind_of_ok (run_execute_of_ok hanswer onErr) f⟩

/-- What the statements that a program can issue keep, a run of it keeps. -/
theorem run_invariant {P : S.Stmt → Prop} {I : σ → Prop}
    (hstep : ∀ s, P s → ∀ x, I x → I (svc.exec s x).2 ∧ ∀ n, I (svc.tear n s x))
    {p : Prog S ε α} (hp : p.Issues P) (faults : List (Option (Fault S.Err))) {x : σ} (hx : I x) :
    I (run svc p faults x).2.2 := by
  induction p generalizing faults x with
  | ret r => exact hx
  | call s k ih =>
    obtain ⟨hexec, htear⟩ := hstep s hp.1 x hx
    exact ih _ (hp.2 _) _ (Service.forall_answer hx hexec htear _)

/-! ### Runs from statement to statement -/

/-- A statement alone: it is executed and answered, or the program ends in the state before it,
after it, or where it was cut off. -/
theorem run_perform_cases (svc : Service S σ) (s : S.Stmt) (onErr : S.Err → ε)
    (faults : List (Option (Fault S.Err))) (x : σ) :
    (∃ r y, svc.exec s x = (.ok r, y) ∧
        run svc (perform s onErr) faults x = (.ok r, faults.tail, y)) ∨
      ∃ e y, run svc (perform s onErr) faults x = (.error e, faults.tail, y) ∧
        (y = x ∨ y = (svc.exec s x).2 ∨ ∃ n, y = svc.tear n s x) := by
  rcases svc.answer_cases (faultAt faults 0) s x with h | ⟨why, y, h, hy⟩
  · rcases hexec : svc.exec s x with ⟨e | r, y⟩
    · rw [hexec] at h
      exact .inr ⟨_, y, run_perform_of_error h onErr, .inr (.inl rfl)⟩
    · rw [hexec] at h
      exact .inl ⟨r, y, rfl, run_perform_of_ok h onErr⟩
  · exact .inr ⟨_, y, run_perform_of_error h onErr, hy⟩

theorem run_execute_cases (svc : Service S σ) (s : S.Stmt) (onErr : S.Err → ε)
    (faults : List (Option (Fault S.Err))) (x : σ) :
    (∃ r y, svc.exec s x = (.ok r, y) ∧
        run svc (execute s onErr) faults x = (.ok (), faults.tail, y)) ∨
      ∃ e y, run svc (execute s onErr) faults x = (.error e, faults.tail, y) ∧
        (y = x ∨ y = (svc.exec s x).2 ∨ ∃ n, y = svc.tear n s x) := by
  rcases svc.answer_cases (faultAt faults 0) s x with h | ⟨why, y, h, hy⟩
  · rcases hexec : svc.exec s x with ⟨e | r, y⟩
    · rw [hexec] at h
      exact .inr ⟨_, y, run_execute_of_error h onErr, .inr (.inl rfl)⟩
    · rw [hexec] at h
      exact .inl ⟨r, y, rfl, run_execute_of_ok h onErr⟩
  · exact .inr ⟨_, y, run_execute_of_error h onErr, hy⟩

/-- Every statement that a run executes satisfies `P`, with the state that it is executed in and the
fault that it meets. -/
def Along (svc : Service S σ) (P : S.Stmt → σ → Option (Fault S.Err) → Prop) :
    Prog S ε α → List (Option (Fault S.Err)) → σ → Prop
  | ret _, _, _ => True
  | call s k, faults, x =>
    let a := svc.answer faults.head?.join s x
    P s x faults.head?.join ∧ Along svc P (k a.1) faults.tail a.2

/-- Whether a run meets such a condition can be tested by executing it. -/
def Along.decide {P : S.Stmt → σ → Option (Fault S.Err) → Prop}
    [∀ s x fault, Decidable (P s x fault)] :
    (p : Prog S ε α) → (faults : List (Option (Fault S.Err))) → (x : σ) →
      Decidable (Along svc P p faults x)
  | ret _, _, _ => .isTrue trivial
  | call s k, faults, x =>
    let a := svc.answer faults.head?.join s x
    have : Decidable (Along svc P (k a.1) faults.tail a.2) := Along.decide (k a.1) faults.tail a.2
    inferInstanceAs (Decidable (P s x faults.head?.join ∧ _))

instance {P : S.Stmt → σ → Option (Fault S.Err) → Prop} [∀ s x fault, Decidable (P s x fault)]
    (p : Prog S ε α) (faults : List (Option (Fault S.Err))) (x : σ) :
    Decidable (Along svc P p faults x) :=
  Along.decide p faults x

theorem Along.of_bind {P : S.Stmt → σ → Option (Fault S.Err) → Prop} {p : Prog S ε α}
    {f : α → Prog S ε β} {faults : List (Option (Fault S.Err))} {x : σ}
    (h : Along svc P (p >>= f) faults x) :
    Along svc P p faults x ∧ ∀ a rest y, run svc p faults x = (.ok a, rest, y) →
      Along svc P (f a) rest y := by
  induction p generalizing faults x with
  | ret r =>
    refine ⟨trivial, ?_⟩
    rintro a rest y ⟨⟩
    exact h
  | call s k ih =>
    obtain ⟨hs, hk⟩ := h
    obtain ⟨hp, hf⟩ := ih _ hk
    exact ⟨⟨hs, hp⟩, hf⟩

/-- The program in front of a cleanup. -/
theorem Along.of_onStop {P : S.Stmt → σ → Option (Fault S.Err) → Prop} {cleanup : Prog S ε Unit}
    {p : Prog S ε α} {faults : List (Option (Fault S.Err))} {x : σ}
    (h : Along svc P (onStop cleanup p) faults x) : Along svc P p faults x := by
  induction p generalizing faults x with
  | ret r => trivial
  | call s k ih => exact ⟨h.1, ih _ h.2⟩

/-! ### Loops of one statement

A loop that executes one statement for each element of a list applies the elements in order until
one fails. `applied done x` says that the elements `done` have taken effect in state `x`, and
`good done b` when the next one can.
-/

/-- Among the first `n` statements none meets a fault, except that the reply to the last one may be
lost. -/
def AllExecuted {ε : Type} (faults : List (Option (Fault ε))) (n : ℕ) : Prop :=
  ∀ j < n, faultAt faults j = none ∨ (j + 1 = n ∧ ∃ why, faultAt faults j = some (.lost why))

/-- Each element of the list can be applied after the ones before it. -/
def AllGood (good : List β → β → Prop) : List β → List β → Prop
  | _, [] => True
  | done, b :: l => good done b ∧ AllGood good (done ++ [b]) l

theorem allExecuted_succ_iff {ε : Type} {faults : List (Option (Fault ε))} {n : ℕ} :
    AllExecuted faults (n + 1) ↔
      (faultAt faults 0 = none ∧ AllExecuted faults.tail n) ∨
        (n = 0 ∧ ∃ why, faultAt faults 0 = some (.lost why)) := by
  have htail : ∀ j, faultAt faults.tail j = faultAt faults (j + 1) := fun j =>
    (faultAt_succ faults j).symm
  constructor
  · intro h
    rcases h 0 (by omega) with hnone | ⟨hn, hlost⟩
    · refine .inl ⟨hnone, fun j hj => ?_⟩
      rw [htail]
      exact (h (j + 1) (by omega)).imp_right fun ⟨hlast, hlost⟩ => ⟨by omega, hlost⟩
    · exact .inr ⟨by omega, hlost⟩
  · rintro (⟨hnone, h⟩ | ⟨rfl, hlost⟩) j hj
    · cases j with
      | zero => exact .inl hnone
      | succ j =>
        rw [← htail]
        exact (h j (by omega)).imp_right fun ⟨hlast, hlost⟩ => ⟨by omega, hlost⟩
    · obtain rfl : j = 0 := by omega
      exact .inr ⟨rfl, hlost⟩

private theorem forall_lt_succ_faultAt_iff {ε : Type} {faults : List (Option (Fault ε))} {n : ℕ} :
    (∀ j < n + 1, faultAt faults j = none) ↔
      faultAt faults 0 = none ∧ ∀ j < n, faultAt faults.tail j = none := by
  simp only [← faultAt_succ]
  constructor
  · exact fun h => ⟨h 0 (by omega), fun j hj => h (j + 1) (by omega)⟩
  · rintro ⟨hzero, hsucc⟩ j hj
    cases j with
    | zero => exact hzero
    | succ j => exact hsucc j (by omega)

/-- The loop applies a prefix of the list. It applies all of it iff every element can be applied and
every statement is executed, and ends with a result iff moreover no reply is lost. -/
theorem run_forEach_execute {stmt : β → S.Stmt} {onErr : S.Err → ε} (applied : List β → σ → Prop)
    {good : List β → β → Prop}
    (hgood : ∀ done b x, applied done x → good done b →
      ∃ r x', svc.exec (stmt b) x = (.ok r, x') ∧ applied (done ++ [b]) x')
    (hbad : ∀ done b x, applied done x → ¬ good done b →
      ∃ e x', svc.exec (stmt b) x = (.error e, x') ∧ applied done x')
    (htear : ∀ n done b x, applied done x → applied done (svc.tear n (stmt b) x))
    (l done : List β) (faults : List (Option (Fault S.Err))) {x : σ} (hx : applied done x) :
    ∃ k ≤ l.length,
      applied (done ++ l.take k)
        (run svc (forEach l fun b => execute (stmt b) onErr) faults x).2.2 ∧
      (k = l.length ↔ AllGood good done l ∧ AllExecuted faults l.length) ∧
      ((run svc (forEach l fun b => execute (stmt b) onErr) faults x).1 = .ok () ↔
        AllGood good done l ∧ ∀ j < l.length, faultAt faults j = none) := by
  induction l generalizing done faults x with
  | nil =>
    exact ⟨0, Nat.le_refl 0, by simpa using hx, by simp [AllGood, AllExecuted], by simp [AllGood]⟩
  | cons b l ih =>
    -- The first statement meets the first fault, and what remains is the loop over the tail.
    rw [forEach_cons, execute, bind_call, run_call, ← faultAt_zero, List.length_cons,
      allExecuted_succ_iff, forall_lt_succ_faultAt_iff]
    -- In the cases that end here, nothing or only `b` of the list is applied.
    have hzero : ∀ y, applied done y → applied (done ++ (b :: l).take 0) y := by simp
    by_cases hb : good done b
    · obtain ⟨r, x', hexec, hx'⟩ := hgood done b x hx hb
      have hone : applied (done ++ (b :: l).take 1) x' := by simpa using hx'
      cases hfault : faultAt faults 0 with
      | none =>
        -- `b` is applied and answered, and the loop goes on behind it.
        obtain ⟨k, hk, happlied, hall, hok⟩ := ih (done ++ [b]) faults.tail hx'
        refine ⟨k + 1, by omega, ?_, ?_, ?_⟩
        · simpa [Service.answer, hexec, Except.map] using happlied
        · simp [AllGood, hb, hall]
        · simp only [Service.answer, hexec, Except.mapError_ok, Except.map, bind_ok, AllGood, hb,
            true_and]
          exact hok
      | some fault =>
        cases fault with
        | rejected why =>
          exact ⟨0, by omega, hzero _ hx, by simp,
            by simp [Service.answer, Except.map]⟩
        | lost why =>
          -- The effect is there, but the program does not know: the loop ends with `b` applied.
          -- That is all of the list only if `b` is its last element.
          refine ⟨1, by omega, ?_, ?_, by simp [Service.answer, Except.map]⟩
          · simpa [Service.answer, hexec, Except.map] using hone
          · cases l <;> simp [AllGood, hb]
        | torn n why =>
          exact ⟨0, by omega, hzero _ (htear n done b x hx), by simp,
            by simp [Service.answer, Except.map]⟩
    · -- `b` cannot be applied: the loop ends here, whatever fault its statement meets.
      obtain ⟨e, x', hexec, hx'⟩ := hbad done b x hx hb
      refine ⟨0, by omega, hzero _ ?_, by simp [AllGood, hb], ?_⟩
      · cases hfault : faultAt faults 0 with
        | none => simpa [Service.answer, hexec, Except.map] using hx'
        | some fault =>
          cases fault with
          | rejected why => exact hx
          | lost why => simpa [Service.answer, hexec, Except.map] using hx'
          | torn n why => exact htear n done b x hx
      · cases hfault : faultAt faults 0 with
        | none => simp [Service.answer, hexec, Except.map, AllGood, hb]
        | some fault =>
          cases fault <;> simp [Service.answer, Except.map, AllGood, hb]

end Prog

/-! ## Sequences of requests -/

namespace Trace

variable {σ τ : Type}

/-- Every step of a sequence meets a condition in the state it starts from. -/
def AllMeet (next : σ → τ → σ) (cond : σ → τ → Prop) : σ → List τ → Prop
  | _, [] => True
  | x, t :: ts => cond x t ∧ AllMeet next cond (next x t) ts

/-- Whether every step meets the condition can be decided by running the sequence. -/
def AllMeet.decide {next : σ → τ → σ} {cond : σ → τ → Prop} [∀ x t, Decidable (cond x t)] :
    (x : σ) → (ts : List τ) → Decidable (AllMeet next cond x ts)
  | _, [] => .isTrue trivial
  | x, t :: ts => @instDecidableAnd _ _ _ (decide (next x t) ts)

instance {next : σ → τ → σ} {cond : σ → τ → Prop} [∀ x t, Decidable (cond x t)] (x : σ)
    (ts : List τ) : Decidable (AllMeet next cond x ts) :=
  AllMeet.decide x ts

/-- A condition that does not look at the state. -/
theorem allMeet_of_forall {next : σ → τ → σ} {good : τ → Prop} {ts : List τ}
    (h : ∀ t ∈ ts, good t) (x : σ) : AllMeet next (fun _ t => good t) x ts := by
  induction ts generalizing x with
  | nil => trivial
  | cons t ts ih => exact ⟨h t List.mem_cons_self, ih (fun t' ht' => h t' (.tail _ ht')) _⟩

/-- The steps of a sequence meet the condition iff each does after the ones before it. -/
theorem allMeet_append {next : σ → τ → σ} {cond : σ → τ → Prop} {x : σ} {ts us : List τ} :
    AllMeet next cond x (ts ++ us) ↔
      AllMeet next cond x ts ∧ AllMeet next cond (ts.foldl next x) us := by
  induction ts generalizing x with
  | nil => simp [AllMeet]
  | cons t ts ih => simp [AllMeet, ih, and_assoc]

/-- What a step that meets the condition keeps, a sequence of such steps keeps. -/
theorem AllMeet.invariant {next : σ → τ → σ} {cond : σ → τ → Prop} {P : σ → Prop} {x : σ}
    {ts : List τ} (h : AllMeet next cond x ts) (hinit : P x)
    (hstep : ∀ x t, t ∈ ts → P x → cond x t → P (next x t)) : P (ts.foldl next x) := by
  induction ts generalizing x with
  | nil => exact hinit
  | cons t ts ih =>
    exact ih h.2 (hstep x t (by simp) hinit h.1) fun x u hu => hstep x u (by simp [hu])

/-- A condition that follows from another one in every state that an invariant admits. -/
theorem AllMeet.imp_of_invariant {next : σ → τ → σ} {cond cond' : σ → τ → Prop} {P : σ → Prop}
    {x : σ} {ts : List τ} (h : AllMeet next cond x ts) (hinit : P x)
    (hstep : ∀ x t, P x → cond x t → cond' x t ∧ P (next x t)) : AllMeet next cond' x ts := by
  induction ts generalizing x with
  | nil => trivial
  | cons t ts ih =>
    obtain ⟨hcond, hnext⟩ := hstep x t hinit h.1
    exact ⟨hcond, ih h.2 hnext⟩

/-- Let each step make a property hold iff it is a certain event, and none end it. Then the property
holds after a sequence of steps iff it held before, or the event was among them. -/
theorem holds_foldl_iff {next : σ → τ → σ} {P : σ → Prop} {event : σ → τ → Prop} {good : τ → Prop}
    (h : ∀ x t, good t → (P (next x t) ↔ P x ∨ event x t)) {ts : List τ}
    (hgood : ∀ t ∈ ts, good t) {x : σ} :
    P (ts.foldl next x) ↔ P x ∨ ¬ AllMeet next (fun x t => ¬ event x t) x ts := by
  induction ts generalizing x with
  | nil => simp [AllMeet]
  | cons t ts ih =>
    have hnext := h x t (hgood t List.mem_cons_self)
    rw [List.foldl_cons, ih fun t' ht' => hgood t' (.tail _ ht'), hnext]
    simp only [AllMeet, not_and_or, not_not, or_assoc]

/-- What the last of the steps yielded that yield something. -/
def last {β : Type} (next : σ → τ → σ) (yield : σ → τ → Option β) : σ → List τ → Option β
  | _, [] => none
  | x, t :: ts => (last next yield (next x t) ts).or (yield x t)

@[simp] theorem last_nil {β : Type} (next : σ → τ → σ) (yield : σ → τ → Option β) (x : σ) :
    last next yield x [] = none := rfl

@[simp] theorem last_cons {β : Type} (next : σ → τ → σ) (yield : σ → τ → Option β) (x : σ) (t : τ)
    (ts : List τ) :
    last next yield x (t :: ts) = (last next yield (next x t) ts).or (yield x t) := rfl

/-- Let a state be related to a value, and each step overwrite the value with what it yields. Then a
sequence of steps overwrites it with what the last of them yielded. -/
theorem rel_last {β : Type} {next : σ → τ → σ} {yield : σ → τ → Option β}
    {R : σ → Option β → Prop} {good : σ → τ → Prop}
    (h : ∀ x t b, good x t → R x b → R (next x t) ((yield x t).or b)) {ts : List τ} {x : σ}
    (hgood : AllMeet next good x ts) {b : Option β} (hx : R x b) :
    R (ts.foldl next x) ((last next yield x ts).or b) := by
  induction ts generalizing x b with
  | nil => exact hx
  | cons t ts ih =>
    have hnext := h x t b hgood.1 hx
    rw [List.foldl_cons, last_cons, Option.or_assoc]
    exact ih hgood.2 hnext

end Trace

/-! ## Interleavings -/

/-- Programs that run against one service, each with what is left of it. -/
structure Sys (S : Signature) (σ ι ε α : Type) where
  shared : σ
  proc : ι → Prog S ε α

namespace Sys

variable {S : Signature} {σ ι ε α : Type} [DecidableEq ι]

/-- Let program `i` execute its next statement; a program that has ended does nothing. -/
def step (svc : Service S σ) (c : Sys S σ ι ε α) (i : ι) (fault : Option (Fault S.Err)) :
    Sys S σ ι ε α :=
  match c.proc i with
  | .ret _ => c
  | .call s k =>
    let a := svc.answer fault s c.shared
    ⟨a.2, Function.update c.proc i (k a.1)⟩

/-- A turn: which program is next, and the fault that its statement meets. -/
abbrev Turn (S : Signature) (ι : Type) :=
  ι × Option (Fault S.Err)

/-- Let the program of a turn execute its next statement. -/
def next (svc : Service S σ) (c : Sys S σ ι ε α) (turn : Turn S ι) : Sys S σ ι ε α :=
  step svc c turn.1 turn.2

variable {svc : Service S σ} {c : Sys S σ ι ε α} {i : ι}

theorem step_of_ret {r : Except (Stop ε) α} (h : c.proc i = .ret r)
    (fault : Option (Fault S.Err)) : step svc c i fault = c := by
  simp [step, h]

theorem step_of_call {s : S.Stmt} {k : Except (Stop S.Err) (S.Reply s) → Prog S ε α}
    (h : c.proc i = .call s k) (fault : Option (Fault S.Err)) :
    step svc c i fault = ⟨(svc.answer fault s c.shared).2,
      Function.update c.proc i (k (svc.answer fault s c.shared).1)⟩ := by
  simp [step, h]

/-- A turn leaves the other programs as they are. -/
theorem proc_next_of_ne (svc : Service S σ) (c : Sys S σ ι ε α) {turn : Turn S ι} {j : ι}
    (h : j ≠ turn.1) : (next svc c turn).proc j = c.proc j := by
  unfold next step
  split
  · rfl
  · exact Function.update_of_ne h _ _

/-- A program that ends within `n` statements has ended after `n` turns of its own. -/
theorem ret_of_count_le {schedule : List (Turn S ι)} {n : ℕ} (h : (c.proc i).EndsWithin n)
    (hcount : n ≤ (schedule.map Prod.fst).count i) :
    ∃ r, (schedule.foldl (next svc) c).proc i = .ret r := by
  induction schedule generalizing c n with
  | nil =>
    -- Without turns the bound is zero, and a program within it has ended.
    obtain rfl : n = 0 := by simpa using hcount
    cases hproc : c.proc i with
    | ret r => exact ⟨r, hproc⟩
    | call s k => rw [hproc] at h; exact h.elim
  | cons turn schedule ih =>
    rw [List.foldl_cons]
    by_cases hturn : turn.1 = i
    · subst hturn
      rw [List.map_cons, List.count_cons_self] at hcount
      -- An own turn uses up one statement of the bound.
      refine ih (n := n - 1) ?_ (by omega)
      cases hproc : c.proc turn.1 with
      | ret r =>
        rw [next, step_of_ret hproc, hproc]
        exact Prog.endsWithin_ret _ _
      | call s k =>
        rw [hproc] at h
        cases n with
        | zero => exact h.elim
        | succ n =>
          rw [next, step_of_call hproc]
          simpa using h _
    · -- Another program's turn changes the shared state alone.
      rw [List.map_cons, List.count_cons_of_ne hturn] at hcount
      refine ih ?_ hcount
      rwa [proc_next_of_ne svc c (Ne.symm hturn)]

end Sys
