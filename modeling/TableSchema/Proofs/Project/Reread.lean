import TableSchema.Project.Build
import TableSchema.Proofs.Registry.History
import TableSchema.Proofs.Registry.ReadEffect

/-!
Reading an input again.

An input that was read has asked the registry for the class of the table that it gave, and this
class is registered from then on (`Sound.reads`). No call takes a class out again, so wherever the
input is read later, it is given up at its class line: it gives the table that its class has by
then, and the registry stays as it is (`Reads.again`). In a list of files it makes no difference
whether a file is named once or several times (`readPaths_eraseDups`).
-/

namespace TableSchema.Registry

/-- The input asks for a class, which is registered. -/
def Reads (r : Registry) (s : Scanner) (domain : String) : Prop :=
  s.askedClass? = some domain ∧ ∃ t, r.find? domain = some t

variable {r r' after : Registry} {s : Scanner} {t : Table} {domain : String}

/-! ## Inputs -/

/-- An input that asks for a registered class gives the table of this class and changes nothing. -/
theorem read_of_asked (asked : s.askedClass? = some domain) (found : r.find? domain = some t) :
    r.read s = .ok (t, r) := by
  obtain ⟨alone, outcome, _⟩ := s.exists_outcome
  unfold read
  rw [outcome, asked, Option.bind_some, found]
  rfl

/-- Reading an input registers the class that it asks for, unless it is registered already. -/
theorem Sound.reads (h : r.Sound) (read : r.read s = .ok (t, after)) :
    after.Reads s t.domain := by
  obtain ⟨alone, outcome, named⟩ := s.exists_outcome
  rcases read_eq_ok read with ⟨rfl, events⟩ | ⟨d, events, rfl, rfl⟩
  · rw [outcome, Definition.Reading.given_eq_registered] at events
    obtain ⟨domain, asked, found⟩ := Option.bind_eq_some_iff.mp events
    obtain ⟨_, rfl⟩ := h.indexed.find?_eq_some_iff.mp found
    exact ⟨asked, t, found⟩
  · have free := (Definition.ofEvents_sound events).2
    rw [outcome, Definition.Reading.given_eq_fresh] at events
    refine ⟨named d events.2, d.table, (h.indexed.add free).find?_domain ?_⟩
    rw [h.indexed.add_eq free]
    simp

/-- No call takes a class out of the registry. -/
theorem Sound.exists_find?_foldl_apply (h : r.Sound) (found : r.find? domain = some t)
    (calls : List Call) : ∃ u, (calls.foldl apply r).find? domain = some u := by
  obtain ⟨ht, rfl⟩ := h.indexed.find?_eq_some_iff.mp found
  have kept : t.domain ∈ (calls.foldl apply r).tables.map Table.domain := by
    rw [h.domains_foldl_apply]
    exact List.mem_append_left _ (List.mem_map_of_mem ht)
  obtain ⟨u, hu, same⟩ := List.mem_map.mp kept
  exact ⟨u, (h.steps (steps_foldl_apply calls r)).indexed.find?_eq_some_iff.mpr ⟨hu, same⟩⟩

theorem Reads.foldl_apply (reads : r.Reads s domain) (h : r.Sound) (calls : List Call) :
    (calls.foldl apply r).Reads s domain := by
  obtain ⟨asked, t, found⟩ := reads
  exact ⟨asked, h.exists_find?_foldl_apply found calls⟩

/-- An input whose class is registered can be read, and this changes nothing. -/
theorem Reads.again (reads : r.Reads s domain) :
    ∃ t, r.find? domain = some t ∧ r.read s = .ok (t, r) := by
  obtain ⟨asked, t, found⟩ := reads
  exact ⟨t, found, read_of_asked asked found⟩

/-! ## Files -/

variable {tree : Project.FileTree} {path other : String} {paths : List String}

/-- The file can be read, and its class is registered. -/
def ReadsPath (r : Registry) (tree : Project.FileTree) (path : String) : Prop :=
  ∃ bytes domain, tree.bytes path = .ok bytes ∧ r.Reads (.ofBytes bytes) domain

/-- Reading a file is reading its bytes. -/
theorem readPath_eq_ok :
    r.readPath tree path = .ok (t, after) ↔
      ∃ bytes, tree.bytes path = .ok bytes ∧ r.read (.ofBytes bytes) = .ok (t, after) := by
  unfold readPath
  cases tree.bytes path with
  | error failure => simp
  | ok bytes => cases read : r.read (.ofBytes bytes) <;> simp [read]

theorem ReadsPath.again (reads : r.ReadsPath tree path) :
    ∃ t, r.readPath tree path = .ok (t, r) := by
  obtain ⟨bytes, domain, found, reads⟩ := reads
  obtain ⟨t, _, read⟩ := reads.again
  exact ⟨t, readPath_eq_ok.mpr ⟨bytes, found, read⟩⟩

theorem Sound.readsPath (h : r.Sound) (read : r.readPath tree path = .ok (t, after)) :
    after.Sound ∧ after.ReadsPath tree path ∧
      ∀ other, r.ReadsPath tree other → after.ReadsPath tree other := by
  obtain ⟨bytes, found, read⟩ := readPath_eq_ok.mp read
  have called : r.apply (.read (.ofBytes bytes)) = after := by simp [apply, read]
  refine ⟨called ▸ h.step (step_apply r _), ⟨bytes, t.domain, found, h.reads read⟩, ?_⟩
  rintro other ⟨bytes', domain, found', reads⟩
  have kept := reads.foldl_apply h [.read (.ofBytes bytes)]
  exact ⟨bytes', domain, found', called ▸ kept⟩

/-- A file that has been read may as well be left out of the list. -/
theorem readPaths_filter (h : r.Sound) (reads : r.ReadsPath tree path) :
    r.readPaths tree (paths.filter fun other => !other == path) = r.readPaths tree paths := by
  induction paths generalizing r with
  | nil => rfl
  | cons other paths ih =>
    by_cases same : other = path
    · subst same
      obtain ⟨t, again⟩ := reads.again
      rw [List.filter_cons_of_neg (by simp), ih h reads, readPaths, again, Except.ok_bind]
    · rw [List.filter_cons_of_pos (by simpa using same), readPaths, readPaths]
      cases read : r.readPath tree other with
      | error diagnostic => rfl
      | ok result =>
        obtain ⟨sound, _, kept⟩ := h.readsPath read
        exact ih sound (kept path reads)

/-- A list of files reads like the list without its later repeats. -/
theorem readPaths_eraseDups {r : Registry} (h : r.Sound) (tree : Project.FileTree)
    (paths : List String) : r.readPaths tree paths.eraseDups = r.readPaths tree paths := by
  cases paths with
  | nil => rfl
  | cons path paths =>
    rw [List.eraseDups_cons, readPaths, readPaths]
    cases read : r.readPath tree path with
    | error diagnostic => rfl
    | ok result =>
      obtain ⟨sound, reads, _⟩ := h.readsPath read
      show result.2.readPaths tree (paths.filter fun other => !other == path).eraseDups =
        result.2.readPaths tree paths
      rw [readPaths_eraseDups sound, readPaths_filter sound reads]
termination_by paths.length
decreasing_by
  exact Nat.lt_succ_of_le (List.length_filter_le _ _)

/-- An input that was read in a run can be read again, at once or after any further calls: it gives
the table that its class has by then, and changes nothing. So the schema of a list of files, or the
reason why there is none, is that of the list without its later repeats. -/
theorem read_again (calls : List Call) :
    (∀ s t after, (run calls).read s = .ok (t, after) → ∀ later : List Call,
      ∃ u, (later.foldl apply after).find? t.domain = some u ∧
        (later.foldl apply after).read s = .ok (u, later.foldl apply after)) ∧
    ∀ tree paths, Project.buildFiles tree paths = Project.buildFiles tree paths.eraseDups := by
  have sound : (run calls).Sound := Reachable.sound ⟨calls, rfl⟩
  refine ⟨fun s t after read later => ?_, fun tree paths => ?_⟩
  · have called : (run calls).apply (.read s) = after := by simp [apply, read]
    have sound' : after.Sound := called ▸ sound.step (step_apply _ _)
    exact ((sound.reads read).foldl_apply sound' later).again
  · unfold Project.buildFiles
    rw [readPaths_eraseDups sound_empty]

/-- The files of a class and of a link of this class with itself, beside the working folder. -/
def library : Project.FileTree where
  files := [
    (["defs", "book.txt"], "// volumes\n[Fields] [Settings]\nCLASS book\n".toUTF8.toList),
    (["defs", "sequel.txt"], "[Settings]\nCLASS sequel\nLINK book book\n".toUTF8.toList)]
  folders := []
  working := ["work"]

/-- A link table is read again after its link has been built, and is given with its new columns. A
file may be named from the root of the system or from the working folder. -/
theorem read_again_library :
    (∃ t after u, (run single).read pairing = .ok (t, after) ∧ t.columns.length = 1 ∧
      (after.materialize ⟨"P", "A", "A"⟩).1.find? t.domain = some u ∧
      (after.materialize ⟨"P", "A", "A"⟩).1.read pairing =
        .ok (u, (after.materialize ⟨"P", "A", "A"⟩).1) ∧ u.columns.length = 3) ∧
    Project.buildFiles library
        ["/defs/book.txt", "../defs/sequel.txt", "/defs/book.txt", "../defs/sequel.txt"] =
      Project.buildFiles library ["/defs/book.txt", "../defs/sequel.txt"] ∧
    (Project.buildFiles library ["/defs/book.txt", "../defs/sequel.txt"]).toOption.map
        (fun schema => schema.tables.map Table.name) = some ["BOOK", "SEQUEL"] := by
  obtain ⟨again, repeats⟩ := read_again single
  refine ⟨?_, repeats library _, by decide +kernel⟩
  have widths : ∃ result ∈ ((run single).read pairing).toOption, result.1.columns.length = 1 ∧
      ∃ u ∈ (result.2.materialize ⟨"P", "A", "A"⟩).1.find? result.1.domain,
        u.columns.length = 3 := by
    decide +kernel
  obtain ⟨⟨t, after⟩, read, width, u, found, wider⟩ := widths
  rw [Except.mem_toOption] at read
  obtain ⟨u', found', reread⟩ := again _ t after read [.materialize ⟨"P", "A", "A"⟩]
  obtain rfl := Option.some.inj (found.symm.trans found')
  exact ⟨t, after, u, read, width, found, reread, wider⟩

end TableSchema.Registry
