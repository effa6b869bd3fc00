import TableSchema.Project.Settings

/-!
What paths lead to.

A path is followed part by part from the root of the system or from the working folder
(`FileTree.LeadsTo`), and looking it up finds just what it leads to (`FileTree.locate_eq_ok_iff`).
In a folder each part leads on in one way (`FileTree.onward`); where there is none, following it
fails. The path of a name in a folder leads to where the folder is, and from there one step down
(`FileTree.reach_join`). This holds however the path of the folder is written: with a slash at its
end, with dots and empty parts in it, through the folders above the working folder, or from the root
of the system. What a path leads to depends on nothing but the working folder and what stands at the
end of each way (`FileTree.Alike.locate`).
-/

namespace TableSchema.Project

namespace Path

/-! ## Parts -/

theorem parts_ne_nil (cs : List Char) : parts cs ≠ [] := by
  cases cs with
  | nil => simp [parts]
  | cons c rest =>
    rw [parts]
    split
    · simp
    · split <;> simp

theorem parts_append_slash (front back : List Char) :
    parts (front ++ '/' :: back) = parts front ++ parts back := by
  induction front with
  | nil => simp [parts]
  | cons c front ih =>
    rw [List.cons_append, parts, parts, ih]
    split
    · rfl
    · obtain ⟨part, others, cut⟩ := List.exists_cons_of_ne_nil (parts_ne_nil front)
      rw [cut]
      rfl

theorem parts_of_not_mem {cs : List Char} (whole : '/' ∉ cs) : parts cs = [cs] := by
  induction cs with
  | nil => rfl
  | cons c rest ih =>
    obtain ⟨other, whole⟩ := not_or.mp (mt List.mem_cons.mpr whole)
    have noSlash : (c == '/') = false := beq_eq_false_iff_ne.mpr (Ne.symm other)
    simp [parts, noSlash, ih whole]

theorem parts_eq_splitOn (cs : List Char) : parts cs = cs.splitOn '/' := by
  induction cs with
  | nil => rfl
  | cons c rest ih =>
    rw [parts, List.splitOn, List.splitOnP_cons_eq_if_modifyHead, ← List.splitOn, ih]
    obtain ⟨part, others, cut⟩ := List.exists_cons_of_ne_nil (List.splitOn_ne_nil '/' rest)
    rw [cut]
    rfl

/-! ## Names -/

/-- A name that a file or folder can have. -/
def IsName (name : String) : Prop :=
  name ≠ "" ∧ name ≠ "." ∧ name ≠ ".." ∧ '/' ∉ name.toList

instance (name : String) : Decidable (IsName name) :=
  inferInstanceAs (Decidable (_ ∧ _))

/-- The name ends in a dot and the extension, and something stands before that dot. There is no
dot in an extension, so it is the last one of the name. -/
def EndsIn (name ending : String) : Prop :=
  '.' ∉ ending.toList ∧ ∃ stem, stem ≠ "" ∧ name = stem ++ "." ++ ending

theorem extension?_eq_some_iff {name ending : String} (proper : IsName name) :
    extension? name = some ending ↔ EndsIn name ending := by
  have noStep : (name == "..") = false := beq_eq_false_iff_ne.mpr proper.2.2.1
  simp only [extension?, noStep, Bool.false_or]
  constructor
  · intro found
    split at found
    · cases found
    · rename_i filled
      obtain rfl := Option.some.inj found
      have cut := List.takeWhile_append_dropWhile (p := (· != '.')) (l := name.toList.reverse)
      have dotless := List.all_takeWhile (p := (· != '.')) (l := name.toList.reverse)
      generalize name.toList.reverse.takeWhile (· != '.') = ending at *
      cases rest : name.toList.reverse.dropWhile (· != '.') with
      | nil => simp [rest] at filled
      | cons dot stem =>
        obtain rfl : dot = '.' := by
          simpa [rest] using List.head?_dropWhile_not (· != '.') name.toList.reverse
        rw [rest] at cut filled
        refine ⟨fun inside => ?_, String.ofList stem.reverse, fun empty => filled ?_, ?_⟩
        · simp only [String.toList_ofList, List.mem_reverse] at inside
          simpa using List.all_eq_true.mp dotless '.' inside
        · simpa using congrArg String.toList empty
        · apply String.toList_inj.mp
          simpa using (congrArg List.reverse cut).symm
  · rintro ⟨dotless, stem, filled, rfl⟩
    have plain : ∀ c ∈ ending.toList.reverse, (c != '.') = true := by
      intro c hc
      rw [bne_iff_ne]
      rintro rfl
      exact dotless (List.mem_reverse.mp hc)
    have backwards : (stem ++ "." ++ ending).toList.reverse
        = ending.toList.reverse ++ '.' :: stem.toList.reverse := by simp
    rw [backwards, List.takeWhile_append_of_pos plain, List.dropWhile_append_of_pos plain]
    simp [filled]

/-! ## Joining -/

theorem isAbsolute_append {front : List Char} (filled : front ≠ []) (back : List Char) :
    isAbsolute (front ++ back) = isAbsolute front := by
  obtain ⟨c, rest, rfl⟩ := List.exists_cons_of_ne_nil filled
  rfl

theorem not_isAbsolute {name : String} (proper : IsName name) :
    isAbsolute name.toList = false := by
  obtain ⟨_, _, _, whole⟩ := proper
  rw [isAbsolute, beq_eq_false_iff_ne]
  intro slash
  exact whole (List.mem_of_mem_head? slash)

/-- The parts of the path of a name in a folder: if the folder's path ends in a slash, the name
takes the place of the empty part behind it. -/
theorem parts_join {dir name : String} (proper : IsName name) (filled : dir ≠ "") :
    (∃ front, parts dir.toList = front ++ [[]] ∧
      parts (join dir name).toList = front ++ [name.toList]) ∨
    parts (join dir name).toList = parts dir.toList ++ [name.toList] := by
  have notEmpty : dir.isEmpty = false := by simpa using filled
  simp only [join, not_isAbsolute proper, notEmpty, Bool.or_self, Bool.false_eq_true, if_false]
  split
  · rename_i last
    obtain ⟨front, cut⟩ := List.getLast?_eq_some_iff.mp (eq_of_beq last)
    refine .inl ⟨parts front, ?_, ?_⟩
    · rw [cut, parts_append_slash]
      rfl
    · rw [String.toList_append, cut, List.append_assoc, List.singleton_append, parts_append_slash,
        parts_of_not_mem proper.2.2.2]
  · right
    have spelled : (dir ++ "/" ++ name).toList = dir.toList ++ '/' :: name.toList := by simp
    rw [spelled, parts_append_slash, parts_of_not_mem proper.2.2.2]

theorem isAbsolute_join {dir name : String} (proper : IsName name) (filled : dir ≠ "") :
    isAbsolute (join dir name).toList = isAbsolute dir.toList := by
  have notEmpty : dir.isEmpty = false := by simpa using filled
  have notNil : dir.toList ≠ [] := by simpa using filled
  simp only [join, not_isAbsolute proper, notEmpty, Bool.or_self, Bool.false_eq_true, if_false]
  split
  · rw [String.toList_append, isAbsolute_append notNil]
  · rw [String.toList_append, String.toList_append, List.append_assoc, isAbsolute_append notNil]

theorem join_ne_empty {dir name : String} (proper : IsName name) : join dir name ≠ "" := by
  intro empty
  have nothing : (join dir name).toList = [] := by rw [empty]; rfl
  rw [join] at nothing
  repeat' split at nothing
  all_goals simp [proper.1] at nothing

end Path

namespace FileTree

variable {t t' : FileTree} {way below : Way} {path dir name : String}

/-! ## Following a path -/

/-- The parts of a path lead from one way to another. Every part is followed in a folder: an empty
part and a dot stay there, two dots lead to the folder above, and a name leads one step down. -/
inductive Leads (t : FileTree) : Way → List String → Way → Prop
  | here {way : Way} : Leads t way [] way
  | stay {way below : Way} {part : String} {rest : List String} :
      t.node? way = some .folder → part = "" ∨ part = "." →
      Leads t way rest below → Leads t way (part :: rest) below
  | up {way below : Way} {rest : List String} :
      t.node? way = some .folder →
      Leads t way.dropLast rest below → Leads t way (".." :: rest) below
  | down {way below : Way} {name : String} {rest : List String} :
      t.node? way = some .folder → name ≠ "" → name ≠ "." → name ≠ ".." →
      Leads t (way ++ [name]) rest below → Leads t way (name :: rest) below

/-- The way from which a path is followed: the root, or the working folder. -/
def origin (t : FileTree) (path : String) : Way :=
  if path.toList.head? = some '/' then [] else t.working

/-- A path leads to the end of a way, and something stands there. The empty path leads nowhere. -/
structure LeadsTo (t : FileTree) (path : String) (way : Way) (node : Node) : Prop where
  filled : path ≠ ""
  leads : t.Leads (t.origin path) ((path.toList.splitOn '/').map String.ofList) way
  standing : t.node? way = some node

/-- Following a path goes on below a file. -/
def Blocked (t : FileTree) (path : String) : Prop :=
  path ≠ "" ∧ ∃ front part back way bytes,
    (path.toList.splitOn '/').map String.ofList = front ++ part :: back ∧
    t.Leads (t.origin path) front way ∧ t.node? way = some (.file bytes)

/-- Where one part leads to from a folder. -/
def onward (way : Way) (part : String) : Way :=
  if part = "" ∨ part = "." then way else if part = ".." then way.dropLast else way ++ [part]

theorem follow_cons_of_folder (folder : t.node? way = some .folder) (part : String)
    (rest : List String) : t.follow way (part :: rest) = t.follow (onward way part) rest := by
  simp only [follow, folder, onward, Bool.or_eq_true, beq_iff_eq]
  split
  · rfl
  · split <;> rfl

theorem Leads.cons {part : String} {rest : List String} (folder : t.node? way = some .folder)
    (leads : t.Leads (onward way part) rest below) : t.Leads way (part :: rest) below := by
  unfold onward at leads
  split at leads
  · rename_i idle
    exact .stay folder idle leads
  · rename_i busy
    obtain ⟨notEmpty, notDot⟩ := not_or.mp busy
    split at leads
    · rename_i dots
      exact dots ▸ .up folder leads
    · rename_i notDots
      exact .down folder notEmpty notDot notDots leads

theorem follow_eq_ok_iff {parts : List String} :
    t.follow way parts = .ok below ↔ t.Leads way parts below := by
  constructor
  · intro followed
    induction parts generalizing way with
    | nil =>
      obtain rfl := Except.ok.inj followed
      exact .here
    | cons part rest ih =>
      cases standing : t.node? way with
      | none => simp [follow, standing] at followed
      | some node =>
        cases node with
        | file bytes => simp [follow, standing] at followed
        | folder =>
          rw [follow_cons_of_folder standing] at followed
          exact .cons standing (ih followed)
  · intro leads
    induction leads with
    | here => rfl
    | stay folder idle _ ih => rwa [follow_cons_of_folder folder, onward, if_pos idle]
    | up folder _ ih => simpa [follow_cons_of_folder folder, onward] using ih
    | down folder notEmpty notDot notDots _ ih =>
      simpa [follow_cons_of_folder folder, onward, notEmpty, notDot, notDots] using ih

/-- If following fails, then in front of a part where nothing stands or a file. -/
theorem follow_eq_error {parts : List String} {cause : ReadFailure}
    (failed : t.follow way parts = .error cause) :
    ∃ front part back mid, parts = front ++ part :: back ∧ t.Leads way front mid ∧
      ((cause = .missing ∧ t.node? mid = none) ∨
        (cause = .belowFile ∧ ∃ bytes, t.node? mid = some (.file bytes))) := by
  induction parts generalizing way with
  | nil => cases failed
  | cons part rest ih =>
    cases standing : t.node? way with
    | none =>
      have missing : cause = .missing := by simpa [follow, standing] using failed.symm
      exact ⟨[], part, rest, way, rfl, .here, .inl ⟨missing, standing⟩⟩
    | some node =>
      cases node with
      | file bytes =>
        have belowFile : cause = .belowFile := by simpa [follow, standing] using failed.symm
        exact ⟨[], part, rest, way, rfl, .here, .inr ⟨belowFile, bytes, standing⟩⟩
      | folder =>
        rw [follow_cons_of_folder standing] at failed
        obtain ⟨front, stop, back, mid, rfl, leads, why⟩ := ih failed
        exact ⟨part :: front, stop, back, mid, rfl, .cons standing leads, why⟩

theorem follow_append (t : FileTree) (way : Way) (front back : List String) :
    t.follow way (front ++ back) = (t.follow way front).bind (t.follow · back) := by
  induction front generalizing way with
  | nil => rfl
  | cons part rest ih =>
    cases standing : t.node? way with
    | none => simp [follow, standing, Except.bind]
    | some node =>
      cases node with
      | file bytes => simp [follow, standing, Except.bind]
      | folder =>
        rw [List.cons_append, follow_cons_of_folder standing, follow_cons_of_folder standing, ih]

/-- The way that a path leads to, at the end of which nothing need stand. -/
def reach (t : FileTree) (path : String) : Except ReadFailure Way :=
  t.follow (t.start path) ((Path.parts path.toList).map String.ofList)

theorem start_eq_origin (t : FileTree) (path : String) : t.start path = t.origin path := by
  simp [start, origin, Path.isAbsolute]

theorem reach_eq_follow (t : FileTree) (path : String) :
    t.reach path = t.follow (t.origin path) ((path.toList.splitOn '/').map String.ofList) := by
  rw [reach, start_eq_origin, Path.parts_eq_splitOn]

theorem reach_eq_ok_iff :
    t.reach path = .ok way ↔
      t.Leads (t.origin path) ((path.toList.splitOn '/').map String.ofList) way := by
  rw [reach_eq_follow, follow_eq_ok_iff]

/-- Looking up a path goes where the path leads, and looks at what stands there. -/
theorem locate_of_ne_empty (filled : path ≠ "") :
    t.locate path = (t.reach path).bind fun way =>
      match t.node? way with
      | none => .error .missing
      | some node => .ok (way, node) := by
  rw [locate, if_neg (by simpa using filled)]
  rfl

/-- Looking up a path finds what the path leads to. -/
theorem locate_eq_ok_iff {node : Node} :
    t.locate path = .ok (way, node) ↔ t.LeadsTo path way node := by
  by_cases empty : path = ""
  · have lost : t.locate path = .error .missing := by simp [locate, empty]
    rw [lost]
    constructor
    · intro located
      cases located
    · rintro ⟨filled, _, _⟩
      exact absurd empty filled
  rw [locate_of_ne_empty empty]
  constructor
  · intro located
    cases led : t.reach path with
    | error cause =>
      rw [led] at located
      cases located
    | ok way' =>
      rw [led, Except.bind] at located
      split at located
      · cases located
      · rename_i node' standing
        obtain ⟨rfl, rfl⟩ := Prod.mk.inj (Except.ok.inj located)
        exact ⟨empty, reach_eq_ok_iff.mp led, standing⟩
  · rintro ⟨_, leads, standing⟩
    rw [reach_eq_ok_iff.mpr leads, Except.bind]
    simp only [standing]

/-- A path that is followed below a file finds nothing for this reason. -/
theorem locate_of_blocked (blocked : t.Blocked path) : t.locate path = .error .belowFile := by
  obtain ⟨filled, front, part, back, way, bytes, cut, leads, file⟩ := blocked
  rw [locate_of_ne_empty filled, reach_eq_follow, cut, follow_append, follow_eq_ok_iff.mpr leads]
  simp only [Except.bind, follow, file]

/-- A path that leads nowhere, and not because of a file, leads to what is missing. -/
theorem locate_of_lost (lost : ∀ way node, ¬ t.LeadsTo path way node) (free : ¬ t.Blocked path) :
    t.locate path = .error .missing := by
  by_cases empty : path = ""
  · simp [locate, empty]
  cases located : t.locate path with
  | ok found => exact absurd (locate_eq_ok_iff.mp located) (lost found.1 found.2)
  | error cause =>
    rw [locate_of_ne_empty empty] at located
    cases led : t.reach path with
    | ok way =>
      rw [led, Except.bind] at located
      split at located
      · exact located.symm
      · cases located
    | error cause' =>
      rw [led] at located
      obtain rfl := Except.error.inj located
      rw [reach_eq_follow] at led
      obtain ⟨front, part, back, mid, cut, leads, ⟨rfl, _⟩ | ⟨_, bytes, file⟩⟩ :=
        follow_eq_error led
      · rfl
      · exact absurd ⟨empty, front, part, back, mid, bytes, cut, leads, file⟩ free

theorem follow_singleton_empty (followed : t.follow way [""] = .ok below) : below = way := by
  cases standing : t.node? way with
  | none => simp [follow, standing] at followed
  | some node =>
    cases node with
    | file bytes => simp [follow, standing] at followed
    | folder =>
      rw [follow_cons_of_folder standing] at followed
      exact (Except.ok.inj followed).symm

theorem follow_singleton (folder : t.node? way = some .folder) (proper : Path.IsName name) :
    t.follow way [name] = .ok (way ++ [name]) := by
  obtain ⟨notEmpty, notDot, notDots, _⟩ := proper
  rw [follow_cons_of_folder folder, onward, if_neg (not_or.mpr ⟨notEmpty, notDot⟩), if_neg notDots]
  rfl

theorem start_join (proper : Path.IsName name) (filled : dir ≠ "") :
    t.start (Path.join dir name) = t.start dir := by
  rw [start, start, Path.isAbsolute_join proper filled]

/-- A name in a folder is reached from where the folder is. -/
theorem reach_join (proper : Path.IsName name) (filled : dir ≠ "")
    (reached : t.reach dir = .ok way) : t.reach (Path.join dir name) = t.follow way [name] := by
  rw [reach, start_join proper filled]
  rcases Path.parts_join proper filled with ⟨front, cut, joined⟩ | joined
  · rw [reach, cut, List.map_append, follow_append] at reached
    rw [joined, List.map_append, follow_append]
    cases led : t.follow (t.start dir) (front.map String.ofList) with
    | error cause =>
      rw [led] at reached
      cases reached
    | ok mid =>
      rw [led] at reached
      obtain rfl := follow_singleton_empty reached
      simp [Except.bind]
  · rw [joined, List.map_append, follow_append]
    rw [reach] at reached
    rw [reached]
    simp [Except.bind]

/-! ## Files in a folder -/

/-- A file of this name stands in the folder. -/
def FileIn (t : FileTree) (folder : Way) (name : String) : Prop :=
  ∃ bytes, t.node? (folder ++ [name]) = some (.file bytes)

/-- A path leads to a file. -/
def LeadsToFile (t : FileTree) (path : String) : Prop :=
  ∃ way bytes, t.LeadsTo path way (.file bytes)

theorem isFile_iff : t.isFile path = true ↔ t.LeadsToFile path := by
  simp only [LeadsToFile, ← locate_eq_ok_iff]
  rw [isFile]
  split
  · rename_i way bytes located
    simp [located]
  · rename_i other
    simp only [Bool.false_eq_true, false_iff]
    rintro ⟨way, bytes, located⟩
    exact other way bytes located

/-- The path of a name in a folder leads one step down from the folder. -/
theorem leadsTo_join (led : t.LeadsTo dir way .folder) (proper : Path.IsName name) {node : Node} :
    t.LeadsTo (Path.join dir name) below node ↔
      below = way ++ [name] ∧ t.node? below = some node := by
  have reached : t.reach (Path.join dir name) = .ok (way ++ [name]) := by
    rw [reach_join proper led.filled (reach_eq_ok_iff.mpr led.leads),
      follow_singleton led.standing proper]
  constructor
  · rintro ⟨_, leads, standing⟩
    have reached' := reach_eq_ok_iff.mpr leads
    exact ⟨Except.ok.inj (reached'.symm.trans reached), standing⟩
  · rintro ⟨rfl, standing⟩
    exact ⟨Path.join_ne_empty proper, reach_eq_ok_iff.mp reached, standing⟩

/-- The path of a name in a folder is that of a file if one stands there. -/
theorem leadsToFile_join (led : t.LeadsTo dir way .folder) (proper : Path.IsName name) :
    t.LeadsToFile (Path.join dir name) ↔ t.FileIn way name := by
  simp only [LeadsToFile, leadsTo_join led proper]
  constructor
  · rintro ⟨_, bytes, rfl, standing⟩
    exact ⟨bytes, standing⟩
  · rintro ⟨bytes, standing⟩
    exact ⟨_, bytes, rfl, standing⟩

/-! ## Names in a folder -/

/-- All names in the tree are names that files and folders can have. -/
def Named (t : FileTree) : Prop := ∀ way ∈ t.ways, ∀ name ∈ way, Path.IsName name

instance (t : FileTree) : Decidable t.Named :=
  inferInstanceAs (Decidable (∀ way ∈ t.ways, ∀ name ∈ way, Path.IsName name))

theorem mem_ways_of_lookup {bytes : List UInt8} (found : t.files.lookup way = some bytes) :
    way ∈ t.ways := by
  obtain ⟨front, back, cut, _⟩ := List.lookup_eq_some_iff.mp found
  simp [ways, cut]

/-- Something stands at the end of a way that leads on to a file or a folder of the tree. -/
theorem node?_isSome_iff : (t.node? way).isSome ↔ ∃ other ∈ t.ways, way <+: other := by
  rw [node?]
  split
  · rename_i bytes found
    simp only [Option.isSome_some, true_iff]
    exact ⟨way, mem_ways_of_lookup found, List.prefix_refl way⟩
  · simp

/-- The names in a folder are those of what stands one step below it. -/
theorem mem_namesIn : name ∈ t.namesIn way ↔ (t.node? (way ++ [name])).isSome := by
  rw [node?_isSome_iff, namesIn, List.mem_eraseDups, List.mem_filterMap]
  constructor
  · rintro ⟨other, inside, found⟩
    split at found
    · rename_i begins
      obtain ⟨rest, rfl⟩ := List.isPrefixOf_iff_prefix.mp begins
      rw [List.drop_left] at found
      obtain ⟨rest, rfl⟩ := List.head?_eq_some_iff.mp found
      exact ⟨_, inside, rest, by simp⟩
    · cases found
  · rintro ⟨_, inside, rest, rfl⟩
    refine ⟨_, inside, ?_⟩
    rw [List.append_assoc, if_pos (List.isPrefixOf_iff_prefix.mpr (List.prefix_append _ _)),
      List.drop_left]
    rfl

theorem FileIn.mem_namesIn (h : t.FileIn way name) : name ∈ t.namesIn way := by
  obtain ⟨bytes, standing⟩ := h
  rw [FileTree.mem_namesIn, standing]
  rfl

theorem Named.isName_of_mem (named : t.Named) (inside : name ∈ t.namesIn way) :
    Path.IsName name := by
  obtain ⟨other, taken, rest, rfl⟩ := node?_isSome_iff.mp (mem_namesIn.mp inside)
  exact named _ taken name (by simp)

theorem nodup_eraseDups (names : List String) : names.eraseDups.Nodup := by
  cases names with
  | nil => exact List.nodup_nil
  | cons name rest =>
    rw [List.eraseDups_cons, List.nodup_cons, List.mem_eraseDups]
    exact ⟨by simp, nodup_eraseDups (rest.filter fun other => !other == name)⟩
termination_by names.length
decreasing_by exact Nat.lt_succ_of_le (List.length_filter_le _ _)

theorem nodup_namesIn (t : FileTree) (way : Way) : (t.namesIn way).Nodup := nodup_eraseDups _

/-! ## Trees with the same at the end of each way -/

theorem lookup_eq_some_iff_mem {files : List (Way × List UInt8)} (once : (files.map Prod.fst).Nodup)
    {way : Way} {bytes : List UInt8} : files.lookup way = some bytes ↔ (way, bytes) ∈ files := by
  induction files with
  | nil => simp
  | cons file files ih =>
    obtain ⟨other, bytes'⟩ := file
    obtain ⟨fresh, once⟩ := List.nodup_cons.mp once
    rw [List.lookup_cons, List.mem_cons]
    by_cases same : way = other
    · subst same
      have notBelow : (way, bytes) ∉ files := fun inside =>
        fresh (List.mem_map.mpr ⟨(way, bytes), inside, rfl⟩)
      simp [notBelow, eq_comm]
    · have differs : (way == other) = false := beq_eq_false_iff_ne.mpr same
      simp [same, differs, ih once]

/-- Two trees in which the same stands at the end of each way, with the same working folder. The
order in which they have their files and folders may differ. -/
structure Alike (t t' : FileTree) : Prop where
  node : ∀ way, t'.node? way = t.node? way
  working : t'.working = t.working

/-- The order in which a tree has its files and folders does not matter. -/
theorem alike_of_perm (files : t'.files.Perm t.files) (folders : t'.folders.Perm t.folders)
    (once : (t.files.map Prod.fst).Nodup) (working : t'.working = t.working) : t.Alike t' := by
  refine ⟨fun way => ?_, working⟩
  have once' := (files.map Prod.fst).nodup_iff.mpr once
  have sameFile : t'.files.lookup way = t.files.lookup way := by
    apply Option.ext
    intro bytes
    rw [lookup_eq_some_iff_mem once', lookup_eq_some_iff_mem once, files.mem_iff]
  have sameWays : t'.ways.any way.isPrefixOf = t.ways.any way.isPrefixOf := by
    rw [ways, ways, working]
    exact (((files.map Prod.fst).append folders).cons t.working).any_eq
  rw [node?, node?, sameFile, sameWays]

theorem Alike.follow (alike : t.Alike t') (way : Way) (names : List String) :
    t'.follow way names = t.follow way names := by
  induction names generalizing way with
  | nil => rfl
  | cons name rest ih => simp only [FileTree.follow, alike.node, ih]

theorem Alike.locate (alike : t.Alike t') (path : String) : t'.locate path = t.locate path := by
  simp only [FileTree.locate, start, alike.working, alike.follow, alike.node]

theorem Alike.isFile (alike : t.Alike t') (path : String) : t'.isFile path = t.isFile path := by
  rw [FileTree.isFile, FileTree.isFile, alike.locate]

theorem Alike.namesIn_perm (alike : t.Alike t') (way : Way) :
    (t'.namesIn way).Perm (t.namesIn way) := by
  refine (List.perm_ext_iff_of_nodup (nodup_namesIn t' way) (nodup_namesIn t way)).mpr ?_
  intro name
  rw [mem_namesIn, mem_namesIn, alike.node]

end FileTree

end TableSchema.Project
