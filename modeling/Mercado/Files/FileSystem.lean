import Mercado.Async.Task
import Mercado.Files.Path

/-! Files by their keys, in a directory of the workspace. -/
namespace Mercado.FileStorage
open Async Path

inductive FileSystemStorageError where
  | fileOpenFailure | createFailure | readFailure | writeFailure | deleteFailure | createDirFailed
  deriving DecidableEq, Repr

inductive FileStorageError where
  | uploadFailed | retrieveFailed | deleteFailed
  deriving DecidableEq, Repr

def getFilePath (workspacePath fileKey : String) : List Char :=
  push (push (push [] workspacePath.toList) "files".toList) fileKey.toList

/- What is asked of the operating system. -/

inductive SysCall where
  | createDirAll (path : List Component)
  | createFile (path : List Char)
  | writeAll (path : List Char) (bytes : List UInt8)
  | removeFile (path : List Char)
  | openFile (path : List Char)
  | readToEnd (path : List Char)

abbrev Reply : SysCall → Type
  | .createDirAll _ | .createFile _ | .writeAll .. | .removeFile _ | .openFile _ => Except Unit Unit
  | .readToEnd _ => Except Unit (List UInt8)

abbrev FsTask := Task SysCall Reply

def call (c : SysCall) : FsTask (Reply c) := Task.call c

/- `FileSystem`. -/

def uploadFile (workspacePath fileKey : String) (file : List UInt8) :
    ExceptT FileSystemStorageError FsTask Unit := do
  let filePath := getFilePath workspacePath fileKey
  match parent filePath with
  | none => throw .createDirFailed
  | some directory => do
    Task.changeContext .createDirFailed (call (.createDirAll directory))
    Task.changeContext .createFailure (call (.createFile filePath))
    Task.changeContext .writeFailure (call (.writeAll filePath file))

def deleteFile (workspacePath fileKey : String) : ExceptT FileSystemStorageError FsTask Unit :=
  Task.changeContext .deleteFailure (call (.removeFile (getFilePath workspacePath fileKey)))

def retrieveFile (workspacePath fileKey : String) :
    ExceptT FileSystemStorageError FsTask (List UInt8) := do
  let filePath := getFilePath workspacePath fileKey
  Task.changeContext .fileOpenFailure (call (.openFile filePath))
  Task.changeContext .readFailure (call (.readToEnd filePath))

/- `FileStorageInterface`. -/

inductive Operation where
  | uploadFile (file : List UInt8)
  | deleteFile
  | retrieveFile

def Operation.run (workspacePath fileKey : String) :
    Operation → ExceptT FileStorageError FsTask (Option (List UInt8))
  | .uploadFile file => do
    Task.changeContext .uploadFailed (FileStorage.uploadFile workspacePath fileKey file).run
    return none
  | .deleteFile => do
    Task.changeContext .deleteFailed (FileStorage.deleteFile workspacePath fileKey).run
    return none
  | .retrieveFile => do
    let received ← Task.changeContext .retrieveFailed
      (FileStorage.retrieveFile workspacePath fileKey).run
    return some received

def SysCall.file : SysCall → Option (List Char)
  | .createDirAll _ => none
  | .createFile path | .writeAll path _ | .removeFile path | .openFile path | .readToEnd path =>
    some path

def filesDir (workspacePath : String) : Resolved :=
  resolve (push (push [] workspacePath.toList) "files".toList)

/-- The file of the key is in the directory, and no operation on it touches another. -/
structure Contained (workspacePath fileKey : String) : Prop where
  path : (filesDir workspacePath).Inside (resolve (getFilePath workspacePath fileKey))
  calls : ∀ op : Operation, (op.run workspacePath fileKey).run.every fun c =>
    ∀ path ∈ c.file, (filesDir workspacePath).Inside (resolve path)

/-- A relative key that climbs up comes back down along the same names, and goes on. An
absolute one leads there by itself. -/
def Returns (base : Resolved) (fileKey : List Char) : Prop :=
  if isAbsolute fileKey then base.Inside (resolve fileKey)
  else ((resolve fileKey).up ≤ base.names.length ∨ base.absolute = true) ∧ ∃ rest, rest ≠ [] ∧
    (resolve fileKey).names =
      base.names.drop (base.names.length - (resolve fileKey).up) ++ rest

variable {workspacePath fileKey : String}

theorem path_inside_iff :
    (filesDir workspacePath).Inside (resolve (getFilePath workspacePath fileKey)) ↔
      Returns (filesDir workspacePath) fileKey.toList := by
  unfold Returns
  cases absolute : isAbsolute fileKey.toList with
  | true =>
    have replaced : getFilePath workspacePath fileKey = fileKey.toList := if_pos absolute
    rw [replaced, if_pos rfl]
  | false =>
    rw [if_neg Bool.false_ne_true, ← inside_join, filesDir, ← resolve_push absolute, getFilePath]

def SysCall.On (filePath : List Char) (c : SysCall) : Prop := ∀ path ∈ c.file, path = filePath

theorem on_file {c : SysCall} {filePath : List Char} (file : c.file = some filePath) :
    c.On filePath := by
  intro path mem
  rw [file] at mem
  exact (Option.some.inj mem).symm

theorem uploadFile_every (file : List UInt8) :
    (uploadFile workspacePath fileKey file).run.every
      (·.On (getFilePath workspacePath fileKey)) := by
  simp only [uploadFile]
  cases parent (getFilePath workspacePath fileKey) with
  | none => trivial
  | some directory =>
    apply Task.every_tryBind
    · have none : (SysCall.createDirAll directory).On (getFilePath workspacePath fileKey) := by
        intro path mem
        cases mem
      exact Task.every_changeContext (Task.every_call none)
    intro _
    apply Task.every_tryBind
    · exact Task.every_changeContext (Task.every_call (on_file rfl))
    intro _
    exact Task.every_changeContext (Task.every_call (on_file rfl))

theorem retrieveFile_every : (retrieveFile workspacePath fileKey).run.every
    (·.On (getFilePath workspacePath fileKey)) := by
  apply Task.every_tryBind
  · exact Task.every_changeContext (Task.every_call (on_file rfl))
  intro _
  exact Task.every_changeContext (Task.every_call (on_file rfl))

theorem run_every (op : Operation) : (op.run workspacePath fileKey).run.every
    (·.On (getFilePath workspacePath fileKey)) := by
  cases op with
  | uploadFile file =>
    apply Task.every_tryBind (Task.every_changeContext (uploadFile_every file))
    intro _
    trivial
  | deleteFile =>
    apply Task.every_tryBind
    · apply Task.every_changeContext
      exact Task.every_changeContext (Task.every_call (on_file rfl))
    intro _
    trivial
  | retrieveFile =>
    apply Task.every_tryBind (Task.every_changeContext retrieveFile_every)
    intro _
    trivial

/-- The operations stay in the directory exactly for the keys that lead into it. -/
theorem contained_iff (workspacePath fileKey : String) : Contained workspacePath fileKey ↔
    Returns (filesDir workspacePath) fileKey.toList := by
  rw [← path_inside_iff]
  constructor
  · exact Contained.path
  · intro inside
    refine ⟨inside, fun op => (run_every op).mono ?_⟩
    intro c on path mem
    rw [on path mem]
    exact inside

theorem key_escapes : ¬ Contained "/srv/mercado" "../../../etc/passwd" := by
  intro contained
  obtain ⟨-, -, rest, -, names⟩ := contained.path
  have base : (filesDir "/srv/mercado").names =
      ["srv".toList, "mercado".toList, "files".toList] := by decide
  have passwd : (resolve (getFilePath "/srv/mercado" "../../../etc/passwd")).names =
      ["etc".toList, "passwd".toList] := by decide
  rw [base, passwd, List.cons_append] at names
  have srv : "etc".toList = "srv".toList := (List.cons.inj names).1
  exact absurd srv (by decide)

end Mercado.FileStorage
