import TableSchema.Project.Path
import TableSchema.Diagnostic
import TableSchema.Text.CaseMap

/-!
The files that a run can see.

A tree holds all files and folders of a system, each by the names on the way to it from the root. A
path that begins with a slash leads from the root, every other path from the working folder, and two
dots lead to the folder above. There is nothing above the root.
-/

namespace TableSchema.Project

/-- A way from the root of the system, as names. -/
abbrev Way := List String

/-- The files of a system with their bytes, the folders named for themselves, and the working
folder. -/
structure FileTree where
  files : List (Way × List UInt8)
  folders : List Way
  working : Way
deriving DecidableEq, Repr

/-- What stands at the end of a way. -/
inductive Node where
  | file (bytes : List UInt8)
  | folder
deriving DecidableEq, Repr

namespace FileTree

/-- Every way that is taken: to a file or to a folder. -/
def ways (t : FileTree) : List Way := t.working :: t.files.map Prod.fst ++ t.folders

/-- What stands at the end of a way. Whatever lies on the way to something is a folder. -/
def node? (t : FileTree) (way : Way) : Option Node :=
  match t.files.lookup way with
  | some bytes => some (.file bytes)
  | none => if t.ways.any way.isPrefixOf then some .folder else none

/-- Follows the parts of a path from the end of a way. -/
def follow (t : FileTree) : Way → List String → Except ReadFailure Way
  | way, [] => .ok way
  | way, name :: rest =>
    match t.node? way with
    | none => .error .missing
    | some (.file _) => .error .belowFile
    | some .folder =>
      if name == "" || name == "." then t.follow way rest
      else if name == ".." then t.follow way.dropLast rest
      else t.follow (way ++ [name]) rest

/-- The way from which a path leads on: the root or the working folder. -/
def start (t : FileTree) (path : String) : Way :=
  if Path.isAbsolute path.toList then [] else t.working

/-- The way that a path leads to, and what stands there. -/
def locate (t : FileTree) (path : String) : Except ReadFailure (Way × Node) :=
  if path.isEmpty then .error .missing
  else do
    let way ← t.follow (t.start path) ((Path.parts path.toList).map String.ofList)
    match t.node? way with
    | none => .error .missing
    | some node => return (way, node)

/-- Whether a path leads to a file. -/
def isFile (t : FileTree) (path : String) : Bool :=
  match t.locate path with
  | .ok (_, .file _) => true
  | _ => false

/-- The bytes of the file that a path leads to. -/
def bytes (t : FileTree) (path : String) : Except ReadFailure (List UInt8) := do
  match ← t.locate path with
  | (_, .file bytes) => return bytes
  | (_, .folder) => .error .folder

/-- The text of the file that a path leads to. -/
def text (t : FileTree) (path : String) : Except ReadFailure String := do
  let bytes ← t.bytes path
  match String.fromUTF8? ⟨bytes.toArray⟩ with
  | some text => return text
  | none => .error .notText

/-- The names in a folder, each once. -/
def namesIn (t : FileTree) (folder : Way) : List String :=
  (t.ways.filterMap fun way =>
    if folder.isPrefixOf way then (way.drop folder.length).head? else none).eraseDups

/-- The names in the folder that a path leads to. -/
def names (t : FileTree) (path : String) : Except ReadFailure (List String) := do
  match ← t.locate path with
  | (_, .file _) => .error .belowFile
  | (folder, .folder) => return t.namesIn folder

end FileTree

end TableSchema.Project
