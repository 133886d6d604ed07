import SumoProvision.Foundations.Prog

/-!
# Files

A file system as a service: metadata, reading, writing a whole file, and changing its mode. A write
that is cut off leaves a prefix of what it was to write. Directories are not part of the state.

A program that asks whether a file exists takes a failure to look for its absence (`pathExists`).
Under `LooksRight` no look at a file fails that is there, so the answer is right if there is one.
-/

/-- A file: its bytes and its mode. -/
structure File where
  bytes : List UInt8
  mode : ℕ
  deriving DecidableEq

/-- The files by their paths. -/
abbrev FileSystem := String → Option File

/-- The operations. -/
inductive FileOp where
  /-- Read the metadata. -/
  | stat (path : String)
  | read (path : String)
  /-- Create the directory that the path is in, and those above. -/
  | createParent (path : String)
  /-- Create the file or truncate it, and write it. -/
  | write (path : String) (bytes : List UInt8)
  | setMode (path : String) (mode : ℕ)

/-- What an operation replies. -/
abbrev FileOp.Reply : FileOp → Type
  | .read _ => List UInt8
  | _ => Unit

/-- The operation only reads. -/
def FileOp.Reads : FileOp → Prop
  | .stat _ | .read _ => True
  | _ => False

/-- Why an operation fails. -/
inductive FileError where
  | notFound
  | other (message : String)
  deriving DecidableEq

/-- The text of an error. -/
def FileError.text : FileError → String
  | .notFound => "No such file or directory (os error 2)"
  | .other message => message

/-- Operations on files. -/
abbrev fileOps : Signature :=
  ⟨FileOp, FileOp.Reply, FileError⟩

namespace FileSystem

/-- Write a file; one that is new gets the mode `created`. -/
def write (created : ℕ) (path : String) (bytes : List UInt8) (x : FileSystem) : FileSystem :=
  Function.update x path (some ⟨bytes, ((x path).map (·.mode)).getD created⟩)

/-- Change the mode of a file. -/
def setMode (path : String) (mode : ℕ) (x : FileSystem) : FileSystem :=
  Function.update x path ((x path).map fun f => ⟨f.bytes, mode⟩)

variable {created mode : ℕ} {path path' : String} {bytes : List UInt8} {x : FileSystem}

theorem write_self : write created path bytes x path =
    some ⟨bytes, ((x path).map (·.mode)).getD created⟩ := by
  simp [write]

theorem write_of_ne (h : path' ≠ path) : write created path bytes x path' = x path' := by
  simp [write, h]

theorem setMode_self : setMode path mode x path = (x path).map fun f => ⟨f.bytes, mode⟩ := by
  simp [setMode]

theorem setMode_of_ne (h : path' ≠ path) : setMode path mode x path' = x path' := by
  simp [setMode, h]

end FileSystem

/-- The service of the file system, where new files get the mode `created`. -/
def fileSystem (created : ℕ) : Service fileOps FileSystem where
  exec
    | .stat path, x => (if (x path).isSome then .ok () else .error .notFound, x)
    | .read path, x =>
      (match x path with
        | some f => .ok f.bytes
        | none => .error .notFound, x)
    | .createParent _, x => (.ok (), x)
    | .write path bytes, x => (.ok (), x.write created path bytes)
    | .setMode path mode, x =>
      (if (x path).isSome then .ok () else .error .notFound, x.setMode path mode)
  tear n
    | .write path bytes, x => x.write created path (bytes.take n)
    | _, x => x

/-- Whether there is a file, by the answer to a look at it: a failure counts as its absence. -/
def existence {ε : Type} : Except (Stop FileError) Unit → Except (Stop ε) Bool
  | .ok _ => .ok true
  | .error (.failed _) => .ok false
  | .error .dropped => .error .dropped

/-- Look whether there is a file. -/
def pathExists {ε : Type} (path : String) : Prog fileOps ε Bool :=
  .call (.stat path) fun r => .ret (existence r)

/-- A look at a file that is there does not fail, unless the program ends with it. -/
def LooksRight (op : FileOp) (x : FileSystem) (fault : Option (Fault FileError)) : Prop :=
  ∀ path, op = .stat path → (x path).isSome → ∀ f ∈ fault, f.why = .dropped

section Programs

variable {ε : Type} (onErr : FileError → ε)

/-- Read a file. -/
def readFile (path : String) : Prog fileOps ε (List UInt8) :=
  .perform (S := fileOps) (.read path) onErr

/-- Create the directory that a file is in. -/
def createParent (path : String) : Prog fileOps ε Unit :=
  .execute (S := fileOps) (.createParent path) onErr

/-- Write a file. -/
def writeFile (path : String) (bytes : List UInt8) : Prog fileOps ε Unit :=
  .execute (S := fileOps) (.write path bytes) onErr

/-- Set the mode of a file. -/
def setPermissions (path : String) (mode : ℕ) : Prog fileOps ε Unit :=
  .execute (S := fileOps) (.setMode path mode) onErr

end Programs

namespace FileSystem

variable {ε : Type} {created : ℕ} {faults : List (Option (Fault FileError))} {x : FileSystem}

/-- The answer on a file is right, if there is one. -/
theorem run_pathExists {path : String}
    (h : Prog.Along (fileSystem created) LooksRight (pathExists path : Prog fileOps ε Bool) faults
      x) :
    (pathExists path : Prog fileOps ε Bool).run (fileSystem created) faults x =
        (.ok (x path).isSome, faults.tail, x) ∨
      (pathExists path : Prog fileOps ε Bool).run (fileSystem created) faults x =
        (.error .dropped, faults.tail, x) := by
  have hrun : ∀ a, (fileSystem created).answer faults.head?.join (.stat path) x = (a, x) →
      (pathExists path : Prog fileOps ε Bool).run (fileSystem created) faults x =
        (existence a, faults.tail, x) :=
    fun a ha => congrArg (fun a => (existence a.1, faults.tail, a.2)) ha
  have hright := h.1 path rfl
  cases hfault : faults.head?.join with
  | none =>
    left
    rw [hfault] at hrun
    cases hfile : x path with
    | none =>
      have hexec : (fileSystem created).exec (.stat path) x = (.error .notFound, x) := by
        simp [fileSystem, hfile]
      exact hrun _ (Service.answer_none_of_error hexec)
    | some f =>
      have hexec : (fileSystem created).exec (.stat path) x = (.ok (), x) := by
        simp [fileSystem, hfile]
      exact hrun _ (Service.answer_none_of_ok hexec)
  | some f =>
    rw [hfault] at hrun
    -- A lost reply is an error of the program. Any other error reads as a file that is not there,
    -- which is right where the file is not there.
    have hanswer := hrun (.error f.why) (by cases f <;> rfl)
    cases hwhy : f.why with
    | dropped =>
      rw [hwhy] at hanswer
      exact .inr hanswer
    | failed e =>
      rw [hwhy] at hanswer
      cases hfile : x path with
      | none => exact .inl hanswer
      | some file =>
        have hdropped := hright (by simp [hfile]) f hfault
        rw [hwhy] at hdropped
        cases hdropped

/-- A program that is killed at some point, or at none, looks right. -/
theorem along_of_dropped {α : Type} (p : Prog fileOps ε α)
    (h : ∀ f, some f ∈ faults → f.why = .dropped) (x : FileSystem) :
    Prog.Along (fileSystem created) LooksRight p faults x := by
  induction p generalizing faults x with
  | ret r => trivial
  | call op k ih =>
    refine ⟨fun _ _ _ f hf => h f ?_, ih _ (fun f hf => h f (List.mem_of_mem_tail hf)) _⟩
    cases faults with
    | nil => cases hf
    | cons fault faults =>
      obtain rfl : fault = some f := hf
      exact List.mem_cons_self

/-- A file that is read is there. -/
theorem run_readFile_cases (onErr : FileError → ε) (path : String)
    (faults : List (Option (Fault FileError))) (x : FileSystem) :
    (∃ f, x path = some f ∧ (readFile onErr path).run (fileSystem created) faults x =
        (.ok f.bytes, faults.tail, x)) ∨
      ∃ e, (readFile onErr path).run (fileSystem created) faults x =
        (.error e, faults.tail, x) := by
  rcases Prog.run_perform_cases (fileSystem created) (.read path) onErr faults x with
    ⟨bytes, y, hexec, hrun⟩ | ⟨e, y, hrun, hy⟩
  · cases hfile : x path with
    | none =>
      simp only [fileSystem, hfile] at hexec
      cases hexec
    | some f =>
      simp only [fileSystem, hfile] at hexec
      cases hexec
      exact .inl ⟨f, rfl, hrun⟩
  · obtain rfl : y = x := by rcases hy with hy | hy | ⟨n, hy⟩ <;> exact hy
    exact .inr ⟨e, hrun⟩

theorem of_run_readFile_eq_ok {onErr : FileError → ε} {path : String} {bytes : List UInt8}
    {rest : List (Option (Fault FileError))} {y : FileSystem}
    (h : (readFile onErr path).run (fileSystem created) faults x = (.ok bytes, rest, y)) :
    y = x ∧ ∃ f, x path = some f ∧ bytes = f.bytes := by
  rcases run_readFile_cases onErr path faults x with ⟨f, hfile, hrun⟩ | ⟨e, hrun⟩
  · cases hrun.symm.trans h
    exact ⟨rfl, f, hfile, rfl⟩
  · cases hrun.symm.trans h

theorem run_createParent_cases (onErr : FileError → ε) (path : String)
    (faults : List (Option (Fault FileError))) (x : FileSystem) :
    (createParent onErr path).run (fileSystem created) faults x = (.ok (), faults.tail, x) ∨
      ∃ e, (createParent onErr path).run (fileSystem created) faults x =
        (.error e, faults.tail, x) := by
  rcases Prog.run_execute_cases (fileSystem created) (.createParent path) onErr faults x with
    ⟨_, y, ⟨⟩, hrun⟩ | ⟨e, y, hrun, hy⟩
  · exact .inl hrun
  · obtain rfl : y = x := by rcases hy with hy | hy | ⟨n, hy⟩ <;> exact hy
    exact .inr ⟨e, hrun⟩

/-- A write that fails leaves the file as it was, or with a prefix of the bytes. -/
theorem run_writeFile_cases (onErr : FileError → ε) (path : String) (bytes : List UInt8)
    (faults : List (Option (Fault FileError))) (x : FileSystem) :
    (writeFile onErr path bytes).run (fileSystem created) faults x =
        (.ok (), faults.tail, x.write created path bytes) ∨
      ∃ e y, (writeFile onErr path bytes).run (fileSystem created) faults x =
        (.error e, faults.tail, y) ∧ (y = x ∨ ∃ n, y = x.write created path (bytes.take n)) := by
  rcases Prog.run_execute_cases (fileSystem created) (.write path bytes) onErr faults x with
    ⟨_, y, ⟨⟩, hrun⟩ | ⟨e, y, hrun, hy | hy | ⟨n, hy⟩⟩
  · exact .inl hrun
  · exact .inr ⟨e, y, hrun, .inl hy⟩
  · exact .inr ⟨e, y, hrun, .inr ⟨bytes.length, by rw [List.take_length]; exact hy⟩⟩
  · exact .inr ⟨e, y, hrun, .inr ⟨n, hy⟩⟩

theorem run_setPermissions_cases (onErr : FileError → ε) (path : String) (mode : ℕ)
    (faults : List (Option (Fault FileError))) (x : FileSystem) :
    (setPermissions onErr path mode).run (fileSystem created) faults x =
        (.ok (), faults.tail, x.setMode path mode) ∨
      ∃ e y, (setPermissions onErr path mode).run (fileSystem created) faults x =
        (.error e, faults.tail, y) ∧ (y = x ∨ y = x.setMode path mode) := by
  rcases Prog.run_execute_cases (fileSystem created) (.setMode path mode) onErr faults x with
    ⟨_, y, hexec, hrun⟩ | ⟨e, y, hrun, hy | hy | ⟨n, hy⟩⟩
  · obtain rfl : x.setMode path mode = y := congrArg Prod.snd hexec
    exact .inl hrun
  · exact .inr ⟨e, y, hrun, .inl hy⟩
  · exact .inr ⟨e, y, hrun, .inr hy⟩
  · exact .inr ⟨e, y, hrun, .inl hy⟩

/-- A program that only reads leaves the files as they are. -/
theorem run_of_reads (created : ℕ) {α : Type} {p : Prog fileOps ε α} (hp : p.Issues FileOp.Reads)
    (faults : List (Option (Fault FileError))) (x : FileSystem) :
    (p.run (fileSystem created) faults x).2.2 = x := by
  refine Prog.run_invariant (I := fun y => y = x) ?_ hp faults rfl
  rintro op hop y rfl
  cases op with
  | stat path | read path => exact ⟨rfl, fun _ => rfl⟩
  | createParent path | write path bytes | setMode path mode => exact hop.elim

/-! ### Runs without faults -/

theorem run_pathExists_nil (path : String) :
    (pathExists path : Prog fileOps ε Bool).run (fileSystem created) [] x =
      (.ok (x path).isSome, [], x) := by
  cases h : x path with
  | none => simp [pathExists, Prog.run_call, Service.answer, fileSystem, h, existence]
  | some f => simp [pathExists, Prog.run_call, Service.answer, fileSystem, h, existence]

theorem run_readFile_nil (onErr : FileError → ε) {path : String} {f : File} (h : x path = some f) :
    (readFile onErr path).run (fileSystem created) [] x = (.ok f.bytes, [], x) :=
  Prog.run_perform_eq_ok_iff.mpr ⟨rfl, rfl, by simp only [fileSystem, h]⟩

theorem run_createParent_nil (onErr : FileError → ε) (path : String) :
    (createParent onErr path).run (fileSystem created) [] x = (.ok (), [], x) :=
  Prog.run_execute_eq_ok_iff.mpr ⟨rfl, rfl, (), rfl⟩

theorem run_writeFile_nil (onErr : FileError → ε) (path : String) (bytes : List UInt8) :
    (writeFile onErr path bytes).run (fileSystem created) [] x =
      (.ok (), [], x.write created path bytes) :=
  Prog.run_execute_eq_ok_iff.mpr ⟨rfl, rfl, (), rfl⟩

theorem run_setPermissions_nil (onErr : FileError → ε) {path : String} (mode : ℕ)
    (h : (x path).isSome) :
    (setPermissions onErr path mode).run (fileSystem created) [] x =
      (.ok (), [], x.setMode path mode) :=
  Prog.run_execute_eq_ok_iff.mpr ⟨rfl, rfl, (), by simp [fileSystem, h]⟩

end FileSystem
