import TableSchema.Project.Settings
import TableSchema.Schema

/-!
Building the schema of a project.
-/

namespace TableSchema

/-- Reads the definition in a file. A file that cannot be read is refused. -/
def Registry.readPath (r : Registry) (t : Project.FileTree) (path : String) :
    Except Diagnostic (Table × Registry) :=
  match t.bytes path with
  | .error failure => .error (Definition.Refusal.diagnostic path (.unreadable failure))
  | .ok bytes =>
    match r.read (.ofBytes bytes) with
    | .error refusal => .error (refusal.diagnostic path)
    | .ok result => .ok result

/-- Reads the definitions in files one after the other, up to the first that is refused. -/
def Registry.readPaths (t : Project.FileTree) : Registry → List String → Except Diagnostic Registry
  | r, [] => .ok r
  | r, path :: paths => do
    let (_, r) ← r.readPath t path
    r.readPaths t paths

namespace Project

/-- Why there is no schema of a project. -/
inductive Failure where
  | settings (failure : SettingsFailure)
  | schema (diagnostic : Diagnostic)
deriving DecidableEq, Repr

/-- The schema of the definitions in files, which are read in order. -/
def buildFiles (t : FileTree) (paths : List String) : Except Diagnostic Schema := do
  let r ← Registry.empty.readPaths t paths
  match r.finish with
  | .ok schema => return schema
  | .error dangling => .error dangling.diagnostic

/-- The schema of the definitions that settings select. -/
def build (t : FileTree) (s : Settings) : Except Failure Schema :=
  match s.inputFiles t with
  | .error failure => .error (.settings failure)
  | .ok paths =>
    match buildFiles t paths with
    | .error diagnostic => .error (.schema diagnostic)
    | .ok schema => .ok schema

/-- The schema of the project in a folder. -/
def buildFolder (t : FileTree) (dir : String) : Except Failure Schema :=
  match Settings.loadFolder t dir with
  | .error failure => .error (.settings failure)
  | .ok s => build t s

end Project

end TableSchema
