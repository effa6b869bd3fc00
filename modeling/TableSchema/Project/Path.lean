/-!
Paths of files, as texts.

A path stays as it is written: joining two paths puts a slash between them if none is there, and
that is the name that messages show.
-/

namespace TableSchema.Project.Path

/-- Whether a path begins at the root of the system. -/
def isAbsolute (path : List Char) : Bool := path.head? == some '/'

/-- The parts of a path between its slashes, empty ones too. -/
def parts : List Char → List (List Char)
  | [] => [[]]
  | c :: rest =>
    if c == '/' then [] :: parts rest
    else
      match parts rest with
      | [] => [[c]]
      | part :: others => (c :: part) :: others

/-- The parts with slashes between them. -/
def unparts (parts : List (List Char)) : List Char := ['/'].intercalate parts

/-- The path `path` as seen from the folder `base`. -/
def join (base path : String) : String :=
  if isAbsolute path.toList || base.isEmpty then path
  else if base.toList.getLast? == some '/' then base ++ path
  else base ++ "/" ++ path

/-- The parts without those at the end that lead nowhere: empty ones, and dots that are not the
whole start of a path. -/
def dropIdle (parts : List (List Char)) : List (List Char) :=
  match parts with
  | [] => []
  | first :: rest =>
    let rest := (rest.reverse.dropWhile fun part => part == [] || part == ['.']).reverse
    if first == [] && rest == [] then [] else first :: rest

/-- The steps that a path takes. A dot is a step only at the start, and the root of the system is
the first step of a path that begins there. Two paths with the same steps are the same. -/
def steps (path : String) : List (List Char) :=
  let cs := path.toList
  let idle (part : List Char) : Bool := part == [] || part == ['.']
  match parts cs with
  | [] => []
  | first :: rest =>
    let start := if first != [] then [first] else if isAbsolute cs then [['/']] else []
    start ++ rest.filter fun part => !idle part

/-- The folder of a path. The root and the empty path have the empty one. -/
def parent (path : String) : String :=
  let cs := path.toList
  let front := dropIdle (dropIdle (parts cs)).dropLast
  if front.isEmpty then
    if isAbsolute cs && !(dropIdle (parts cs)).isEmpty then "/" else ""
  else String.ofList (unparts front)

/-- What stands behind the last dot of a file's name, unless that dot begins the name. -/
def extension? (name : String) : Option String :=
  let ending := name.toList.reverse.takeWhile (· != '.')
  let front := (name.toList.reverse.dropWhile (· != '.')).drop 1
  if name == ".." || front.isEmpty then none else some (String.ofList ending.reverse)

end TableSchema.Project.Path
