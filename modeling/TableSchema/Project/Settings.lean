import TableSchema.Project.FileTree
import TableSchema.Toml.Document

/-!
The settings of a run: which definition files are read, and in which order.

Settings name a folder, and either a list of files in it or the extension of the files to be read.
Every part may be left out. The folder is looked up from the root of the settings, which is where
their file lies.
-/

namespace TableSchema.Project

open Toml (Value Members)

/-- The name of the file with the settings of a project. -/
def settingsFile : String := "batgen.toml"

/-- Where the definition files are. -/
structure Input where
  dir : String
  extension : String
  files : List String
deriving DecidableEq, Repr

/-- The input of settings that say nothing. -/
def Input.standard : Input := ⟨"config", "txt", []⟩

/-- Whether an input is the one of settings that say nothing. The folder may be written in another
way. -/
def Input.isStandard (input : Input) : Bool :=
  Path.steps input.dir == Path.steps standard.dir && input.extension == standard.extension
    && input.files.isEmpty

/-- The settings of a run. The folder of the input is looked up from `root`. -/
structure Settings where
  input : Input
  root : String
deriving DecidableEq, Repr

/-- Why the input of a run is not known. -/
inductive SettingsFailure where
  | unreadable (path : String) (failure : ReadFailure)
  | malformed (path : String)
  | missingInput (path : String)
  | noInputFiles (dir extension : String)
deriving DecidableEq, Repr

/-- The message of a failure. -/
def SettingsFailure.message : SettingsFailure → String
  | unreadable path failure => failure.report path
  | malformed path => "invalid configuration in '" ++ path ++ "'"
  | missingInput path => "input file '" ++ path ++ "' does not exist"
  | noInputFiles dir extension => "no '*." ++ extension ++ "' files found in '" ++ dir ++ "'"

namespace Input

/-- The text that a value is. -/
def text? : Value → Option String
  | .text text => some text
  | _ => none

/-- The texts that a value lists. -/
def texts? : Value → Option (List String)
  | .array items => items.mapM text?
  | _ => none

/-- The input with one member set. There are no members but these. -/
def set? (input : Input) (name : String) (value : Value) : Option Input :=
  match name with
  | "dir" => (text? value).map fun dir => { input with dir := dir }
  | "extension" => (text? value).map fun extension => { input with extension := extension }
  | "files" => (texts? value).map fun files => { input with files := files }
  | _ => none

/-- The input that a value describes: its members by name, or the first of them in order. -/
def ofValue? : Value → Option Input
  | .table _ members =>
    members.foldlM (fun input (member : String × Value) => input.set? member.1 member.2) standard
  | .array items =>
    (["dir", "extension", "files"].zip items).foldlM
      (fun input (member : String × Value) => input.set? member.1 member.2) standard
  | _ => none

/-- The input that a document describes. -/
def ofMembers? : Members → Option Input
  | [] => some standard
  | [("input", value)] => ofValue? value
  | _ => none

end Input

namespace Settings

/-- The settings that a text describes, for the file that messages name. -/
def ofText (path root text : String) : Except SettingsFailure Settings :=
  match (Toml.read? text).bind Input.ofMembers? with
  | some input => .ok ⟨input, root⟩
  | none => .error (.malformed path)

/-- The settings that a text describes, which lies in no file. -/
def inline (root text : String) : Except SettingsFailure Settings := ofText "<inline>" root text

/-- The settings in a file. -/
def load (t : FileTree) (path : String) : Except SettingsFailure Settings :=
  match t.text path with
  | .error failure => .error (.unreadable path failure)
  | .ok text => ofText path (Path.parent path) text

/-- The settings of the project in a folder. -/
def loadFolder (t : FileTree) (dir : String) : Except SettingsFailure Settings :=
  load t (Path.join dir settingsFile)

/-- The folder of the input. -/
def inputDir (s : Settings) : String := Path.join s.root s.input.dir

/-- The paths of files that are listed. All of them have to be there. -/
def listedFiles (t : FileTree) (dir : String) : List String → Except SettingsFailure (List String)
  | [] => .ok []
  | file :: files =>
    let path := Path.join dir file
    if t.isFile path then do
      let paths ← listedFiles t dir files
      return path :: paths
    else .error (.missingInput path)

/-- Whether a file's name has an extension, in any case. -/
def hasExtension (extension name : String) : Bool :=
  match Path.extension? name with
  | some ending => Text.sameLetters ending extension
  | none => false

/-- The paths of the files in a folder that have an extension, by name. -/
def foundFiles (t : FileTree) (dir extension : String) : Except SettingsFailure (List String) :=
  match t.names dir with
  | .error failure => .error (.unreadable dir failure)
  | .ok names =>
    let found := names.filter fun name =>
      hasExtension extension name && t.isFile (Path.join dir name)
    if found.isEmpty then .error (.noInputFiles dir extension)
    else .ok ((found.mergeSort fun a b => decide (a ≤ b)).map (Path.join dir))

/-- The paths of the definition files, in order. -/
def inputFiles (t : FileTree) (s : Settings) : Except SettingsFailure (List String) :=
  if s.input.files.isEmpty then foundFiles t s.inputDir s.input.extension
  else listedFiles t s.inputDir s.input.files

end Settings

end TableSchema.Project
