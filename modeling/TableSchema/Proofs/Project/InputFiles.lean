import TableSchema.Proofs.Project.Paths
import TableSchema.Proofs.Text.ByteOrder

/-!
Which files a run reads.

Files that are listed are read in the order of the list, and all of them have to be there. Otherwise
the files of the input's folder are read that have the extension, by name. There is one such list of
names for what stands in a folder (`FileTree.Selects.eq`), in whatever order the folder names its
entries, and listing these names gives the same paths as looking for them (`inputFiles_spec`).
-/

namespace TableSchema.Project

namespace FileTree

/-- The names of the files in a folder that have an extension, in any case of its ASCII letters: by
their bytes, and each once. -/
structure Selects (t : FileTree) (folder : Way) (extension : String) (names : List String) :
    Prop where
  mem_iff : ∀ name, name ∈ names ↔
    t.FileIn folder name ∧
      ∃ ending, Path.EndsIn name ending ∧ Text.sameLetters ending extension = true
  ordered : names.Pairwise fun a b => Text.utf8 a < Text.utf8 b

theorem Selects.nodup {t : FileTree} {folder : Way} {extension : String} {names : List String}
    (h : t.Selects folder extension names) : names.Nodup :=
  h.ordered.imp (by
    rintro a b less rfl
    exact List.lt_irrefl _ less)

/-- What stands in a folder leaves one choice of names and of their order. -/
theorem Selects.eq {t : FileTree} {folder : Way} {extension : String} {names others : List String}
    (h : t.Selects folder extension names) (h' : t.Selects folder extension others) :
    names = others := by
  have same : names.Perm others :=
    (List.perm_ext_iff_of_nodup h.nodup h'.nodup).mpr fun name => by rw [h.mem_iff, h'.mem_iff]
  exact same.eq_of_pairwise (fun _ _ _ _ less greater => absurd greater (List.lt_asymm less))
    h.ordered h'.ordered

end FileTree

namespace Settings

variable {t : FileTree} {dir extension : String}

/-! ## Listed files -/

/-- What becomes of a list of files in a folder. -/
structure Lists (t : FileTree) (dir : String) (files : List String)
    (outcome : Except SettingsFailure (List String)) : Prop where
  /-- If all are there, they are taken in their order. -/
  complete : (∀ file ∈ files, t.LeadsToFile (Path.join dir file)) →
    outcome = .ok (files.map (Path.join dir))
  /-- Otherwise the first that is not there is missed. -/
  missing : ∀ front file back, files = front ++ file :: back →
    (∀ earlier ∈ front, t.LeadsToFile (Path.join dir earlier)) →
    ¬ t.LeadsToFile (Path.join dir file) → outcome = .error (.missingInput (Path.join dir file))

theorem lists_listedFiles (t : FileTree) (dir : String) (files : List String) :
    Lists t dir files (listedFiles t dir files) := by
  induction files with
  | nil => exact ⟨fun _ => rfl, fun front file back cut => by simp at cut⟩
  | cons first files ih =>
    constructor
    · intro all
      obtain ⟨there, others⟩ := List.forall_mem_cons.mp all
      simp only [listedFiles, if_pos (FileTree.isFile_iff.mpr there), ih.complete others]
      rfl
    · intro front file back cut there notThere
      cases front with
      | nil =>
        obtain ⟨rfl, rfl⟩ := List.cons.inj cut
        simp only [listedFiles, if_neg (mt FileTree.isFile_iff.mp notThere)]
      | cons earlier front =>
        obtain ⟨rfl, rest⟩ := List.cons.inj cut
        obtain ⟨there, others⟩ := List.forall_mem_cons.mp there
        simp only [listedFiles, if_pos (FileTree.isFile_iff.mpr there),
          ih.missing front file back rest others notThere]
        rfl

/-! ## Files that are looked for -/

theorem hasExtension_iff {name : String} (proper : Path.IsName name) :
    hasExtension extension name = true ↔
      ∃ ending, Path.EndsIn name ending ∧ Text.sameLetters ending extension = true := by
  simp only [← Path.extension?_eq_some_iff proper]
  rw [hasExtension]
  cases Path.extension? name with
  | none => simp
  | some ending => simp

/-- The names that are found in a folder, by name. -/
def found (t : FileTree) (dir extension : String) (names : List String) : List String :=
  (names.filter fun name => hasExtension extension name && t.isFile (Path.join dir name)).mergeSort
    fun a b => decide (a ≤ b)

theorem pairwise_found (t : FileTree) (dir extension : String) (names : List String) :
    (found t dir extension names).Pairwise (· ≤ ·) := by
  refine List.Pairwise.imp of_decide_eq_true (List.pairwise_mergeSort ?_ ?_ _)
  · intro a b c less less'
    exact decide_eq_true (String.le_trans (of_decide_eq_true less) (of_decide_eq_true less'))
  · intro a b
    simpa using String.le_total a b

theorem selects_found (named : t.Named) {folder : Way}
    (led : t.LeadsTo dir folder .folder) :
    t.Selects folder extension (found t dir extension (t.namesIn folder)) := by
  have perm := List.mergeSort_perm ((t.namesIn folder).filter fun name =>
    hasExtension extension name && t.isFile (Path.join dir name)) fun a b => decide (a ≤ b)
  constructor
  · intro name
    rw [found, perm.mem_iff, List.mem_filter, Bool.and_eq_true]
    constructor
    · rintro ⟨inside, ending, there⟩
      have proper := named.isName_of_mem inside
      exact ⟨(FileTree.leadsToFile_join led proper).mp (FileTree.isFile_iff.mp there),
        (hasExtension_iff proper).mp ending⟩
    · rintro ⟨there, ending⟩
      have proper := named.isName_of_mem there.mem_namesIn
      exact ⟨there.mem_namesIn, (hasExtension_iff proper).mpr ending,
        FileTree.isFile_iff.mpr ((FileTree.leadsToFile_join led proper).mpr there)⟩
  · have nodup : (found t dir extension (t.namesIn folder)).Nodup :=
      perm.nodup_iff.mpr ((FileTree.nodup_namesIn t folder).filter _)
    refine ((pairwise_found t dir extension _).and nodup).imp ?_
    rintro a b ⟨less, differ⟩
    rw [Text.utf8_lt_utf8]
    by_contra notLess
    exact differ (String.le_antisymm less (String.not_lt.mp notLess))

theorem foundFiles_of_folder {folder : Way} (located : t.locate dir = .ok (folder, .folder)) :
    foundFiles t dir extension =
      if found t dir extension (t.namesIn folder) = [] then .error (.noInputFiles dir extension)
      else .ok ((found t dir extension (t.namesIn folder)).map (Path.join dir)) := by
  have listing : t.names dir = .ok (t.namesIn folder) := by
    rw [FileTree.names, located]
    rfl
  have empty : found t dir extension (t.namesIn folder) = [] ↔
      ((t.namesIn folder).filter fun name =>
        hasExtension extension name && t.isFile (Path.join dir name)).isEmpty = true := by
    rw [List.isEmpty_iff, ← List.length_eq_zero_iff, ← List.length_eq_zero_iff, found,
      List.length_mergeSort]
  simp only [foundFiles, listing, empty]
  rfl

theorem foundFiles_of_error {cause : ReadFailure} (failed : t.locate dir = .error cause) :
    foundFiles t dir extension = .error (.unreadable dir cause) := by
  have unread : t.names dir = .error cause := by
    rw [FileTree.names, failed]
    rfl
  rw [foundFiles, unread]

theorem foundFiles_of_file {folder : Way} {bytes : List UInt8}
    (located : t.locate dir = .ok (folder, .file bytes)) :
    foundFiles t dir extension = .error (.unreadable dir .belowFile) := by
  have unread : t.names dir = .error .belowFile := by
    rw [FileTree.names, located]
    rfl
  rw [foundFiles, unread]

/-- What becomes of a folder that is searched for files with an extension. -/
structure Searches (t : FileTree) (dir extension : String)
    (outcome : Except SettingsFailure (List String)) : Prop where
  /-- Its path goes on below a file. -/
  blocked : t.Blocked dir → outcome = .error (.unreadable dir .belowFile)
  /-- Nothing is there. -/
  lost : (∀ way node, ¬ t.LeadsTo dir way node) → ¬ t.Blocked dir →
    outcome = .error (.unreadable dir .missing)
  /-- A file is there instead. -/
  noFolder : t.LeadsToFile dir → outcome = .error (.unreadable dir .belowFile)
  /-- The folder has no such files. -/
  none : ∀ folder, t.LeadsTo dir folder .folder → t.Selects folder extension [] →
    outcome = .error (.noInputFiles dir extension)
  /-- The folder has such files. -/
  some : ∀ folder names, t.LeadsTo dir folder .folder → t.Selects folder extension names →
    names ≠ [] → outcome = .ok (names.map (Path.join dir))

theorem searches_foundFiles (named : t.Named) (dir extension : String) :
    Searches t dir extension (foundFiles t dir extension) := by
  constructor
  · intro blocked
    exact foundFiles_of_error (FileTree.locate_of_blocked blocked)
  · intro lost free
    exact foundFiles_of_error (FileTree.locate_of_lost lost free)
  · rintro ⟨folder, bytes, led⟩
    exact foundFiles_of_file (FileTree.locate_eq_ok_iff.mpr led)
  · intro folder led selects
    rw [foundFiles_of_folder (FileTree.locate_eq_ok_iff.mpr led),
      if_pos ((selects_found named led).eq selects)]
  · intro folder names led selects filled
    obtain rfl := (selects_found named led).eq selects
    rw [foundFiles_of_folder (FileTree.locate_eq_ok_iff.mpr led), if_neg filled]

/-! ## The input of a run -/

theorem found_congr {t' : FileTree} (alike : t.Alike t') (folder : Way) :
    found t' dir extension (t'.namesIn folder) = found t dir extension (t.namesIn folder) := by
  have perm : (found t' dir extension (t'.namesIn folder)).Perm
      (found t dir extension (t.namesIn folder)) := by
    simp only [found, alike.isFile]
    exact (List.mergeSort_perm _ _).trans
      (((alike.namesIn_perm folder).filter _).trans (List.mergeSort_perm _ _).symm)
  exact perm.eq_of_pairwise (fun _ _ _ _ => String.le_antisymm) (pairwise_found t' dir extension _)
    (pairwise_found t dir extension _)

/-- Only what stands at the end of each way matters, not the order in which a folder names its
entries. -/
theorem inputFiles_congr {t' : FileTree} (alike : t.Alike t') (s : Settings) :
    s.inputFiles t' = s.inputFiles t := by
  have listed (files : List String) :
      listedFiles t' s.inputDir files = listedFiles t s.inputDir files := by
    induction files with
    | nil => rfl
    | cons file files ih => simp only [listedFiles, alike.isFile, ih]
  have searched : foundFiles t' s.inputDir s.input.extension
      = foundFiles t s.inputDir s.input.extension := by
    have located := alike.locate s.inputDir
    cases place : t.locate s.inputDir with
    | error cause =>
      rw [foundFiles_of_error place, foundFiles_of_error (located.trans place)]
    | ok place' =>
      obtain ⟨folder, node⟩ := place'
      cases node with
      | file bytes => rw [foundFiles_of_file place, foundFiles_of_file (located.trans place)]
      | folder =>
        rw [foundFiles_of_folder place, foundFiles_of_folder (located.trans place),
          found_congr alike]
  rw [inputFiles, inputFiles, listed, searched]

theorem inputFiles_of_files {s : Settings} (listing : s.input.files ≠ []) :
    s.inputFiles t = listedFiles t s.inputDir s.input.files := by
  simp [inputFiles, listing]

theorem inputFiles_of_no_files {s : Settings} (noList : s.input.files = []) :
    s.inputFiles t = foundFiles t s.inputDir s.input.extension := by
  simp [inputFiles, noList]

/-- The names that a folder is searched for give the same paths as a list of files. -/
theorem inputFiles_of_selects (named : t.Named) {s : Settings} {folder : Way} {names : List String}
    (led : t.LeadsTo s.inputDir folder .folder)
    (selects : t.Selects folder s.input.extension names) (filled : names ≠ []) :
    { s with input.files := names }.inputFiles t = .ok (names.map (Path.join s.inputDir)) := by
  rw [inputFiles_of_files (s := { s with input.files := names }) filled]
  refine (lists_listedFiles t s.inputDir names).complete fun name inside => ?_
  have there := ((selects.mem_iff name).mp inside).1
  exact (FileTree.leadsToFile_join led (named.isName_of_mem there.mem_namesIn)).mpr there

/-- The input files of settings: those that are listed, or else those of the input's folder that
have the extension, in the one order by name. If some are found, a list of their names gives the
same paths. The order in which a folder names its entries does not matter. -/
theorem inputFiles_spec (named : t.Named) (s : Settings) :
    (s.input.files ≠ [] → Lists t s.inputDir s.input.files (s.inputFiles t)) ∧
    (s.input.files = [] →
      Searches t s.inputDir s.input.extension (s.inputFiles t) ∧
      ∀ folder, t.LeadsTo s.inputDir folder .folder →
        ∃ names, t.Selects folder s.input.extension names ∧
          (∀ others, t.Selects folder s.input.extension others → others = names) ∧
          (names ≠ [] → { s with input.files := names }.inputFiles t = s.inputFiles t)) ∧
    ∀ t' : FileTree, t.Alike t' → s.inputFiles t' = s.inputFiles t := by
  refine ⟨?listed, ?searched, ?order⟩
  case listed =>
    intro listing
    rw [inputFiles_of_files listing]
    exact lists_listedFiles t s.inputDir s.input.files
  case searched =>
    intro noList
    rw [inputFiles_of_no_files noList]
    have searches := searches_foundFiles named s.inputDir s.input.extension
    refine ⟨searches, fun folder led => ?_⟩
    have selects : t.Selects folder s.input.extension _ := selects_found named led
    refine ⟨_, selects, fun others selects' => selects'.eq selects, fun filled => ?_⟩
    rw [inputFiles_of_selects named led selects filled, searches.some folder _ led selects filled]
  case order =>
    intro t' alike
    exact inputFiles_congr alike s

/-- A folder with names of many kinds: in other letters, with several dots, a hidden one, and a
folder that looks like a file. It lies beside the working folder. -/
def shelf : FileTree where
  files := [
    (["home", "defs", "Zeta.txt"], []), (["home", "defs", "Alpha.TXT"], []),
    (["home", "defs", "notes.md"], []), (["home", "defs", ".txt"], []),
    (["home", "defs", "Mid.old.txt"], []), (["home", "defs", "Deep.txt", "Low.txt"], [])]
  folders := [["home", "defs", "Empty.txt"]]
  working := ["home", "work"]

/-- The folder is found from the root of the system, and from the working folder. -/
theorem leadsTo_shelf :
    shelf.LeadsTo "/home/defs" ["home", "defs"] .folder ∧
      shelf.LeadsTo "../defs" ["home", "defs"] .folder :=
  ⟨FileTree.locate_eq_ok_iff.mp (by decide +kernel),
    FileTree.locate_eq_ok_iff.mp (by decide +kernel)⟩

theorem selects_shelf :
    shelf.Selects ["home", "defs"] "txt" ["Alpha.TXT", "Mid.old.txt", "Zeta.txt"] := by
  have named : shelf.Named := by decide +kernel
  have selects : shelf.Selects ["home", "defs"] "txt" _ := selects_found named leadsTo_shelf.1
  have perm : (found shelf "/home/defs" "txt" (shelf.namesIn ["home", "defs"])).Perm
      ["Alpha.TXT", "Mid.old.txt", "Zeta.txt"] :=
    (List.mergeSort_perm _ _).trans (by decide +kernel)
  rwa [perm.eq_of_pairwise (fun _ _ _ _ => String.le_antisymm) (pairwise_found shelf _ _ _)
    (by decide +kernel)] at selects

theorem inputFiles_spec_shelf :
    shelf.Named ∧
    (⟨⟨"defs", "txt", []⟩, "/home"⟩ : Settings).inputFiles shelf
      = .ok ["/home/defs/Alpha.TXT", "/home/defs/Mid.old.txt", "/home/defs/Zeta.txt"] ∧
    (⟨⟨"defs", "txt", ["Zeta.txt", "Alpha.TXT"]⟩, ".."⟩ : Settings).inputFiles shelf
      = .ok ["../defs/Zeta.txt", "../defs/Alpha.TXT"] ∧
    (⟨⟨"defs", "txt", []⟩, ".."⟩ : Settings).inputFiles
        ⟨shelf.files.reverse, shelf.folders.reverse, shelf.working⟩
      = .ok ["../defs/Alpha.TXT", "../defs/Mid.old.txt", "../defs/Zeta.txt"] := by
  have named : shelf.Named := by decide +kernel
  obtain ⟨_, searched, _⟩ := inputFiles_spec named ⟨⟨"defs", "txt", []⟩, "/home"⟩
  obtain ⟨_, searched', order⟩ := inputFiles_spec named ⟨⟨"defs", "txt", []⟩, ".."⟩
  obtain ⟨listed, _⟩ := inputFiles_spec named ⟨⟨"defs", "txt", ["Zeta.txt", "Alpha.TXT"]⟩, ".."⟩
  have found := (searched rfl).1.some _ _ leadsTo_shelf.1 selects_shelf (by decide)
  have found' := (searched' rfl).1.some _ _ leadsTo_shelf.2 selects_shelf (by decide)
  refine ⟨named, found, (listed (by decide)).complete ?_, ?_⟩
  · simp only [← FileTree.isFile_iff]
    decide +kernel
  · have alike : shelf.Alike ⟨shelf.files.reverse, shelf.folders.reverse, shelf.working⟩ :=
      FileTree.alike_of_perm (List.reverse_perm shelf.files) (List.reverse_perm shelf.folders)
        (by decide) rfl
    exact (order _ alike).trans found'

end Settings

end TableSchema.Project
