import Mercado.Async.Serial
import Mercado.Files.FileSystem

/-! What the storage is for: a map from the files that keys lead to, to their bytes. Operations
may overlap as long as nothing else goes on in a file that is uploaded or deleted. -/
namespace Mercado.FileStorage
open Async Path

abbrev Name := List (List Char)

def place (cwd : Name) (path : List Char) : Name :=
  if isAbsolute path then (resolve path).names
  else ((⟨true, 0, cwd⟩ : Resolved).join (resolve path)).names

/-- How the operating system carries out a call. It may refuse any, and a write may end early. -/
inductive Fate where
  | carriedOut
  | refused
  | torn (written : Nat)

/-- One call on one file, which is nobody else's meanwhile: what is open is what has the name. -/
def SysCall.perform : (c : SysCall) → Fate → Option (List UInt8) → Reply c × Option (List UInt8)
  | .createDirAll _, .carriedOut, file => (.ok (), file)
  | .createDirAll _, _, file => (.error (), file)
  | .createFile _, .carriedOut, _ => (.ok (), some [])
  | .createFile _, _, file => (.error (), file)
  | .writeAll _ bytes, .carriedOut, file =>
    (.ok (), file.map fun old => bytes ++ old.drop bytes.length)
  | .writeAll _ bytes, .torn n, file =>
    (.error (), file.map fun old => bytes.take n ++ old.drop (bytes.take n).length)
  | .writeAll _ _, .refused, file => (.error (), file)
  | .removeFile _, .carriedOut, some _ => (.ok (), none)
  | .removeFile _, _, file => (.error (), file)
  | .openFile _, .carriedOut, some bytes => (.ok (), some bytes)
  | .openFile _, _, file => (.error (), file)
  | .readToEnd _, .carriedOut, some bytes => (.ok bytes, some bytes)
  | .readToEnd _, _, file => (.error (), file)

structure Request where
  fileKey : String
  operation : Operation

abbrev Answer := Except FileStorageError (Option (List UInt8))

def disk (cwd : Name) (workspacePath : String) :
    Machine SysCall Reply (Name → Option (List UInt8)) Fate Empty Request Answer where
  exec := fun _ c fate files => match c.file with
    | none => ((c.perform fate none).1, files)
    | some path =>
      let performed := c.perform fate (files (place cwd path))
      (performed.1, Function.update files (place cwd path) performed.2)
  env := fun e _ => e.elim
  program := fun request => (request.operation.run workspacePath request.fileKey).run

/- The map. -/

def Operation.Writes : Operation → Prop
  | .uploadFile _ | .deleteFile => True
  | .retrieveFile => False

def Operation.applies : Operation → Option (List UInt8) →
    Option (Option (List UInt8) × Option (List UInt8))
  | .uploadFile file, _ => some (none, some file)
  | .deleteFile, some _ => some (none, none)
  | .retrieveFile, some bytes => some (some bytes, some bytes)
  | _, none => none

def Operation.failure : Operation → FileStorageError
  | .uploadFile _ => .uploadFailed
  | .deleteFile => .deleteFailed
  | .retrieveFile => .retrieveFailed

/-- What an operation that fails makes of its file. An upload may have begun to write. -/
def Operation.Leaves (op : Operation) (old new : Option (List UInt8)) : Prop :=
  new = old ∨ ∃ file n, op = .uploadFile file ∧ new = some (file.take n)

/-- The operation as one step on its file. Without an answer it has been cut off. -/
def Operation.Takes (op : Operation) (old : Option (List UInt8)) :
    Option Answer → Option (List UInt8) → Prop
  | some (.ok out), new => op.applies old = some (out, new)
  | some (.error e), new => e = op.failure ∧ op.Leaves old new
  | none, new => op.Leaves old new

section

variable (cwd : Name) (workspacePath : String)

def Request.place (request : Request) : Name :=
  FileStorage.place cwd (getFilePath workspacePath request.fileKey)

/-- An upload or a deletion of a file, and anything else on the same one. -/
def Request.Conflicts (request other : Request) : Prop :=
  request.place cwd workspacePath = other.place cwd workspacePath ∧
    (request.operation.Writes ∨ other.operation.Writes)

abbrev StorageConfig := Config SysCall Reply (Name → Option (List UInt8)) Request Answer

def Untouched (c : StorageConfig) (name : Name) : Prop :=
  ∀ p request cmd k, c.procs p = .live request (.await cmd k) → request.operation.Writes →
    request.place cwd workspacePath ≠ name

inductive Kept (start : Name → Option (List UInt8)) :
    List (Request × Option Answer) → (Name → Option (List UInt8)) → Prop where
  | nil : Kept start [] start
  | next {before : List (Request × Option Answer)} {files : Name → Option (List UInt8)}
      {request : Request} {answer : Option Answer} {new : Option (List UInt8)} :
      Kept start before files →
      request.operation.Takes (files (request.place cwd workspacePath)) answer new →
      Kept start (before ++ [(request, answer)])
        (Function.update files (request.place cwd workspacePath) new)

end

variable {cwd : Name} {workspacePath fileKey : String} {file : List UInt8}
  {old new : Option (List UInt8)}

/- The operations on one file. -/

def SysCall.reads : SysCall → Bool
  | .openFile _ | .readToEnd _ => true
  | _ => false

theorem perform_reads {c : SysCall} (reads : c.reads = true) (fate : Fate) :
    (c.perform fate old).2 = old := by
  cases c <;> simp only [SysCall.reads, Bool.false_eq_true] at reads
  all_goals cases fate <;> cases old <;> rfl

def undisturbed (op : Operation) (old : Option (List UInt8)) :
    Setting SysCall Reply (Option (List UInt8)) Fate where
  exec := SysCall.perform
  inv := fun _ => True
  rely := Eq
  guar := fun _ now _ => op.Leaves old now
  allow := fun _ _ _ => True

variable {op : Operation}

theorem undisturbed_call {c : SysCall} {Q : Reply c → Option (List UInt8) → Prop}
    {now : Option (List UInt8)} (leaves : op.Leaves old now)
    (after : ∀ fate, Q (c.perform fate now).1 (c.perform fate now).2) :
    (undisturbed op old).Holds Q (call c) now := by
  rintro _ rfl _ fate _
  exact ⟨leaves, trivial, after fate⟩

theorem uploadFile_holds : (undisturbed (.uploadFile file) old).Holds (fun r new => match r with
      | .ok _ => new = some file
      | .error _ => Operation.Leaves (.uploadFile file) old new)
    (uploadFile workspacePath fileKey file).run old := by
  have untouched : Operation.Leaves (.uploadFile file) old old := .inl rfl
  have begun : ∀ n, Operation.Leaves (.uploadFile file) old (some (file.take n)) :=
    fun n => .inr ⟨file, n, rfl, rfl⟩
  simp only [uploadFile]
  cases parent (getFilePath workspacePath fileKey) with
  | none => exact untouched
  | some directory =>
    refine .bindExcept (.changeContext (undisturbed_call untouched fun fate => ?_))
    cases fate with
    | refused => exact untouched
    | torn n => exact untouched
    | carriedOut =>
      refine .bindExcept (.changeContext (undisturbed_call untouched fun fate => ?_))
      cases fate with
      | refused => exact untouched
      | torn n => exact untouched
      | carriedOut =>
        refine .changeContext (undisturbed_call (begun 0) fun fate => ?_)
        cases fate with
        | refused => exact begun 0
        | torn n =>
          change Operation.Leaves _ old (some (file.take n ++ [].drop (file.take n).length))
          rw [List.drop_nil, List.append_nil]
          exact begun n
        | carriedOut =>
          change some (file ++ [].drop file.length) = some file
          rw [List.drop_nil, List.append_nil]

theorem retrieveFile_holds : (undisturbed .retrieveFile old).Holds (fun r new => new = old ∧
      match r with
      | .ok bytes => old = some bytes
      | .error _ => True)
    (retrieveFile workspacePath fileKey).run old := by
  have untouched : Operation.Leaves .retrieveFile old old := .inl rfl
  refine .bindExcept (.changeContext (undisturbed_call untouched fun fate => ?_))
  cases fate <;> cases old <;> try exact ⟨rfl, trivial⟩
  refine .changeContext (undisturbed_call untouched fun fate => ?_)
  cases fate <;> exact ⟨rfl, by trivial⟩

/-- Each operation, made from the calls that the operating system answers, is one step on the map,
whichever way the calls go. -/
theorem run_holds (op : Operation) : (undisturbed op old).Holds
    (fun answer new => op.Takes old (some answer) new) (op.run workspacePath fileKey).run old := by
  cases op with
  | uploadFile file =>
    refine .bindExcept (.changeContext (uploadFile_holds.mono fun r new after => ?_))
    cases r with
    | ok u =>
      cases after
      rfl
    | error e => exact ⟨rfl, after⟩
  | deleteFile =>
    refine .bindExcept (.changeContext (.changeContext (undisturbed_call (.inl rfl) fun fate => ?_)))
    cases fate <;> cases old <;> first | rfl | exact ⟨rfl, .inl rfl⟩
  | retrieveFile =>
    refine .bindExcept (.changeContext (retrieveFile_holds.mono fun r new after => ?_))
    obtain ⟨rfl, found⟩ := after
    cases r with
    | ok bytes =>
      cases found
      rfl
    | error e => exact ⟨rfl, .inl rfl⟩

def Request.Uses (workspacePath : String) (request : Request) (c : SysCall) : Prop :=
  c.On (getFilePath workspacePath request.fileKey) ∧ (¬ request.operation.Writes → c.reads = true)

theorem run_uses (request : Request) :
    (request.operation.run workspacePath request.fileKey).run.every
      (request.Uses workspacePath) := by
  obtain ⟨fileKey, op⟩ := request
  cases op with
  | uploadFile file =>
    refine (run_every (.uploadFile file)).mono fun c on => ⟨on, fun reader => ?_⟩
    exact absurd trivial reader
  | deleteFile =>
    refine (run_every .deleteFile).mono fun c on => ⟨on, fun reader => ?_⟩
    exact absurd trivial reader
  | retrieveFile =>
    apply Task.every_tryBind
    · apply Task.every_changeContext
      apply Task.every_tryBind
      · exact Task.every_changeContext (Task.every_call ⟨on_file rfl, fun _ => rfl⟩)
      intro _
      exact Task.every_changeContext (Task.every_call ⟨on_file rfl, fun _ => rfl⟩)
    intro _
    trivial

theorem perform_nowhere {c : SysCall} (nowhere : c.file = none) (fate : Fate) :
    c.perform fate old = ((c.perform fate none).1, old) := by
  cases c <;> simp only [SysCall.file, reduceCtorEq] at nowhere
  cases fate <;> rfl

def cells (cwd : Name) (workspacePath : String) : Machine.Cells (disk cwd workspacePath) where
  cell := fun request => request.place cwd workspacePath
  writes := fun request => request.operation.Writes
  uses := fun request => request.Uses workspacePath
  exec := SysCall.perform
  every := run_uses
  acts := by
    intro p request c fate files used
    cases path : c.file with
    | none =>
      rw [perform_nowhere path, Function.update_eq_self]
      simp only [disk, path]
    | some filePath =>
      have same : filePath = getFilePath workspacePath request.fileKey := used.1 filePath path
      subst same
      simp only [disk, path, Request.place]
  reads := fun fate _ used reader => perform_reads (used.2 reader) fate
  env := fun e _ => e.elim

theorem kept_of_serial {start files : Name → Option (List UInt8)}
    {calls : List (Request × Option Answer)}
    (serial : (cells cwd workspacePath).Serial start calls files) :
    Kept cwd workspacePath start calls files := by
  induction serial with
  | nil => exact .nil
  | @returned calls files request answer new _ ran ih =>
    have held := (run_holds request.operation).outcome (fun _ => rfl) (fun _ _ _ => trivial)
      trivial ran
    exact .next ih held.1
  | @crashed calls files request c k new _ before ih =>
    have held := (run_holds request.operation).partly (fun _ => rfl) (fun _ _ _ => trivial)
      trivial before
    exact .next ih (held.1 new rfl trivial .carriedOut trivial).1

/-- Whatever the operating system refuses, and wherever operations are cut off: what they answer,
they answer as steps on the map in the order in which they end, and the files that nobody is
writing to are those of the map. -/
theorem storage_keeps_files {start : Name → Option (List UInt8)} {c : StorageConfig}
    {calls : List (Request × Option Answer)}
    (ended : Machine.Ended (disk cwd workspacePath)
      (Machine.separate (Request.Conflicts cwd workspacePath)) (.initial start) c calls) :
    ∃ files, Kept cwd workspacePath start calls files ∧
      ∀ name, Untouched cwd workspacePath c name → c.world name = files name := by
  obtain ⟨files, serial, follows⟩ :=
    Machine.Cells.Ended.serial (K := cells cwd workspacePath) ended fun _ => rfl
  exact ⟨files, kept_of_serial serial, follows.free⟩

theorem storage_keeps_files_cut_off : ∃ files, Kept [] "/srv" (fun _ => none)
    [(⟨"a", .uploadFile [7]⟩, some (.ok none)), (⟨"b", .uploadFile [8]⟩, none),
      (⟨"a", .retrieveFile⟩, some (.ok (some [7])))] files := by
  have spawn : ∀ (c : StorageConfig) p request,
      (∀ q b cmd k, c.procs q = .live b (.await cmd k) → b.fileKey = "a" ∧ request.fileKey = "b") →
      Machine.separate (Request.Conflicts [] "/srv") c
        (.spawn p request : Action Fate Empty Request) := by
    intro c p request others q b cmd k live clash
    have place := clash.1
    rw [Request.place, Request.place, (others q b cmd k live).1, (others q b cmd k live).2] at place
    exact absurd place (by decide +kernel)
  have uploads : Machine.Ended (disk [] "/srv") (Machine.separate (Request.Conflicts [] "/srv"))
      (.initial fun _ => none) _ _ :=
    .next (.step 0 .carriedOut) (.next (.spawn 0 ⟨"a", .uploadFile [7]⟩) .start (spawn _ _ _ (by
      intro q b cmd k live
      cases live)) rfl) trivial rfl
  have overlap := Machine.Ended.next (.step 1 .carriedOut)
    (.next (.spawn 1 ⟨"b", .uploadFile [8]⟩) uploads (spawn _ _ _ (by
      intro q b cmd k live
      rcases q with _ | q
      · injection live with call
        exact ⟨call ▸ rfl, rfl⟩
      · cases live)) rfl) trivial rfl
  have cutOff := Machine.Ended.next (.crash 1) (.next (.step 0 .carriedOut)
    (.next (.step 0 .carriedOut) overlap trivial rfl) trivial rfl) trivial rfl
  have retrieved := Machine.Ended.next (.step 2 .carriedOut) (.next (.step 2 .carriedOut)
    (.next (.spawn 2 ⟨"a", .retrieveFile⟩) cutOff (spawn _ _ _ (by
      intro q b cmd k live
      rcases q with _ | _ | q <;> cases live)) rfl) trivial rfl) trivial rfl
  obtain ⟨files, kept, -⟩ := storage_keeps_files retrieved
  exact ⟨files, kept⟩

/- What a retrieval answers. -/

theorem Operation.Takes.reads {answer : Option Answer} (takes : op.Takes old answer new)
    (reader : ¬ op.Writes) : new = old := by
  cases op with
  | uploadFile file => exact absurd trivial reader
  | deleteFile => exact absurd trivial reader
  | retrieveFile =>
    have left : Operation.Leaves .retrieveFile old new → new = old := by
      rintro (same | ⟨file, n, other, -⟩)
      · exact same
      · cases other
    rcases answer with _ | e | out
    · exact left takes
    · exact left takes.2
    · cases old with
      | none => cases takes
      | some bytes =>
        cases takes
        rfl

variable {start files : Name → Option (List UInt8)} {before after : List (Request × Option Answer)}

theorem Kept.last {request : Request} {answer : Option Answer}
    (kept : Kept cwd workspacePath start (before ++ [(request, answer)]) files) :
    ∃ mid new, Kept cwd workspacePath start before mid ∧
      request.operation.Takes (mid (request.place cwd workspacePath)) answer new ∧
      files = Function.update mid (request.place cwd workspacePath) new := by
  generalize whole : before ++ [(request, answer)] = calls at kept
  cases kept with
  | nil => exact absurd whole (List.append_ne_nil_of_right_ne_nil _ (List.cons_ne_nil _ _))
  | @next before' mid request' answer' new earlier takes =>
    obtain ⟨rfl, last⟩ := List.append_inj' whole rfl
    cases last
    exact ⟨mid, new, earlier, takes, rfl⟩

theorem Kept.split (kept : Kept cwd workspacePath start (before ++ after) files) :
    ∃ mid, Kept cwd workspacePath start before mid ∧ Kept cwd workspacePath mid after files := by
  induction after using List.reverseRecOn generalizing files with
  | nil =>
    rw [List.append_nil] at kept
    exact ⟨files, kept, .nil⟩
  | append_singleton after call ih =>
    rw [← List.append_assoc] at kept
    obtain ⟨earlier, new, early, takes, rfl⟩ := kept.last
    obtain ⟨mid, first, rest⟩ := ih early
    exact ⟨mid, first, .next rest takes⟩

theorem Kept.unwritten {name : Name} (kept : Kept cwd workspacePath start after files)
    (reads : ∀ call ∈ after, call.1.place cwd workspacePath = name →
      ¬ call.1.operation.Writes) : files name = start name := by
  induction kept with
  | nil => rfl
  | @next after mid request answer new _ takes ih =>
    rw [← ih fun call mem => reads call (List.mem_append_left _ mem)]
    refine Machine.update_kept fun same => takes.reads ?_
    exact reads _ (List.mem_append_right _ (List.mem_singleton_self _)) same.symm

/-- Between an upload that has succeeded and a deletion or another upload of the same file, to
retrieve it is to get what was uploaded. -/
theorem retrieves_last_upload {c : StorageConfig} {key key' : String} {out : Option (List UInt8)}
    {calls between : List (Request × Option Answer)}
    (ended : Machine.Ended (disk cwd workspacePath)
      (Machine.separate (Request.Conflicts cwd workspacePath)) (.initial start) c calls)
    (order : calls = before ++ [(⟨key, .uploadFile file⟩, some (.ok none))] ++ between ++
      [(⟨key', .retrieveFile⟩, some (.ok out))] ++ after)
    (same : Request.place cwd workspacePath ⟨key', .retrieveFile⟩ =
      Request.place cwd workspacePath ⟨key, .uploadFile file⟩)
    (reads : ∀ call ∈ between, call.1.place cwd workspacePath =
      Request.place cwd workspacePath ⟨key, .uploadFile file⟩ → ¬ call.1.operation.Writes) :
    out = some file := by
  subst order
  obtain ⟨_, serial, -⟩ :=
    Machine.Cells.Ended.serial (K := cells cwd workspacePath) ended fun _ => rfl
  obtain ⟨_, kept, -⟩ := (kept_of_serial serial).split
  obtain ⟨late, _, kept, retrieves, -⟩ := kept.last
  obtain ⟨_, kept, rest⟩ := kept.split
  obtain ⟨early, new, -, uploads, rfl⟩ := kept.last
  have there := rest.unwritten reads
  rw [Function.update_self] at there
  cases uploads
  rw [same, there] at retrieves
  cases retrieves
  rfl

end Mercado.FileStorage
