import TableSchema.Proofs.Text.Ascii
import TableSchema.Proofs.Token.Written

/-!
Names made of the characters of words.

Whatever name is derived from a word, in any of the three ways, has no characters in it but those
that a word may have (`wordy_titleCase`, `wordy_capsCase`, `wordy_camelCase`). A class name stays as
it is when it is written where a class is expected (`titleCase_titleCase`). Only the way to a field
name can lose all characters: it drops the underscores.
-/

namespace TableSchema

open Text Lexeme

/-- The text has no characters in it but those of words. -/
def Wordy (text : String) : Prop := ∀ c ∈ text.toList, isWordChar c = true

/-- The text is a word. -/
structure IsWord (text : String) : Prop where
  filled : text ≠ ""
  wordy : Wordy text

theorem IsWord.exists_word {text : String} (h : IsWord text) : ∃ w : Word, w.text = text :=
  ⟨⟨text, by simpa using h.filled, h.wordy⟩, rfl⟩

theorem Wordy.append {a b : String} (h : Wordy a) (h' : Wordy b) : Wordy (a ++ b) := by
  intro c hc
  rw [String.toList_append] at hc
  exact (List.mem_append.mp hc).elim (h c) (h' c)

theorem IsWord.append {a b : String} (h : IsWord a) (h' : Wordy b) : IsWord (a ++ b) :=
  ⟨fun empty => h.filled (String.append_eq_empty_iff.mp empty).1, h.wordy.append h'⟩

theorem IsWord.behind {a b : String} (h : IsWord b) (h' : Wordy a) : IsWord (a ++ b) :=
  ⟨fun empty => h.filled (String.append_eq_empty_iff.mp empty).2, h'.append h.wordy⟩

theorem isAscii_of_isWordChar {c : Char} (h : isWordChar c = true) : isAscii c = true := by
  simp only [isWordChar, Char.isAlphanum, Bool.or_eq_true, beq_iff_eq] at h
  rcases h with (((letter | digit) | rfl) | rfl) | rfl
  · rcases Bool.or_eq_true_iff.mp letter with upper | lower
    · exact isAscii_of_isUpper upper
    · exact isAscii_of_isLower lower
  · exact isAscii_of_isDigit digit
  · decide
  · decide
  · decide

/-- Both cases of a character that words may have are such characters. -/
theorem isWordChar_cases {c : Char} (h : isWordChar c = true) :
    isWordChar c.toUpper = true ∧ isWordChar c.toLower = true ∧ c.toUpper.toUpper = c.toUpper :=
  forall_isAscii (P := fun c => isWordChar c = true →
    isWordChar c.toUpper = true ∧ isWordChar c.toLower = true ∧ c.toUpper.toUpper = c.toUpper)
    (by decide +kernel) (isAscii_of_isWordChar h) h

namespace Identifier

variable {name : String} {cs : List Char}

theorem wordChars_upper (h : ∀ c ∈ cs, isWordChar c = true) :
    ∀ c ∈ upper cs, isWordChar c = true := by
  rw [upper_of_isAscii fun c hc => isAscii_of_isWordChar (h c hc)]
  intro c hc
  obtain ⟨d, hd, rfl⟩ := List.mem_map.mp hc
  exact (isWordChar_cases (h d hd)).1

theorem wordChars_lower (h : ∀ c ∈ cs, isWordChar c = true) :
    ∀ c ∈ lower cs, isWordChar c = true := by
  rw [lower_of_isAscii fun c hc => isAscii_of_isWordChar (h c hc)]
  intro c hc
  obtain ⟨d, hd, rfl⟩ := List.mem_map.mp hc
  exact (isWordChar_cases (h d hd)).2.1

/-! ## Class names -/

theorem titled_cons {c : Char} {rest : List Char} (h : isWordChar c = true) :
    titled (c :: rest) = c.toUpper :: rest := by
  rw [titled, upperForm_of_isAscii (isAscii_of_isWordChar h)]
  rfl

theorem wordy_titleCase (h : Wordy name) : Wordy (titleCase name) := by
  intro c hc
  rw [titleCase, String.toList_ofList] at hc
  cases split : name.toList with
  | nil => simp [split, titled] at hc
  | cons d rest =>
    have each : ∀ c ∈ d :: rest, isWordChar c = true := split ▸ h
    obtain ⟨first, others⟩ := List.forall_mem_cons.mp each
    rw [split, titled_cons first] at hc
    rcases List.mem_cons.mp hc with rfl | hc
    · exact (isWordChar_cases first).1
    · exact others c hc

/-- A class name is its own class name. -/
theorem titleCase_titleCase (h : Wordy name) : titleCase (titleCase name) = titleCase name := by
  rw [titleCase, titleCase, String.toList_ofList]
  cases split : name.toList with
  | nil => rfl
  | cons c rest =>
    have first : isWordChar c = true := h c (by simp [split])
    obtain ⟨upper, _, same⟩ := isWordChar_cases first
    rw [titled_cons first, titled_cons upper, same]

theorem isWord_titleCase (h : IsWord name) : IsWord (titleCase name) := by
  refine ⟨fun empty => h.filled ?_, wordy_titleCase h.wordy⟩
  obtain ⟨c, rest, split⟩ := List.exists_cons_of_ne_nil (mt String.toList_eq_nil_iff.mp h.filled)
  have first : isWordChar c = true := h.wordy c (by simp [split])
  have spelled := congrArg String.toList empty
  rw [titleCase, String.toList_ofList, split, titled_cons first] at spelled
  cases spelled

/-! ## Names in capitals -/

theorem wordChars_underscored (h : ∀ c ∈ cs, isWordChar c = true) :
    ∀ c ∈ underscored cs, isWordChar c = true := by
  induction cs with
  | nil => exact h
  | cons c rest ih =>
    obtain ⟨first, others⟩ := List.forall_mem_cons.mp h
    rw [underscored]
    split
    · exact List.forall_mem_cons.mpr
        ⟨by decide, List.forall_mem_cons.mpr ⟨first, ih others⟩⟩
    · exact List.forall_mem_cons.mpr ⟨first, ih others⟩

theorem wordy_capsCase (h : Wordy name) : Wordy (capsCase name) := by
  intro c hc
  rw [capsCase, String.toList_ofList] at hc
  cases split : name.toList with
  | nil => simp [split, caps] at hc
  | cons d rest =>
    have each : ∀ c ∈ d :: rest, isWordChar c = true := split ▸ h
    obtain ⟨first, others⟩ := List.forall_mem_cons.mp each
    rw [split, caps] at hc
    exact wordChars_upper (List.forall_mem_cons.mpr ⟨first, wordChars_underscored others⟩) c hc

theorem isWord_capsCase (h : IsWord name) : IsWord (capsCase name) := by
  refine ⟨fun empty => h.filled ?_, wordy_capsCase h.wordy⟩
  obtain ⟨c, rest, split⟩ := List.exists_cons_of_ne_nil (mt String.toList_eq_nil_iff.mp h.filled)
  have each : ∀ d ∈ c :: rest, isWordChar d = true := split ▸ h.wordy
  obtain ⟨first, others⟩ := List.forall_mem_cons.mp each
  have chars : ∀ d ∈ c :: underscored rest, isWordChar d = true :=
    List.forall_mem_cons.mpr ⟨first, wordChars_underscored others⟩
  have spelled := congrArg String.toList empty
  rw [capsCase, String.toList_ofList, split, caps,
    upper_of_isAscii fun d hd => isAscii_of_isWordChar (chars d hd)] at spelled
  cases spelled

/-! ## Field names -/

/-- Cutting a name into words adds nothing. -/
theorem mem_of_mem_words {gs : List (List Char)} :
    ∀ word ∈ words gs, ∀ g ∈ word, g ∈ gs := by
  induction gs with
  | nil => simp [words]
  | cons g rest ih =>
    have later : ∀ word ∈ words rest, ∀ h ∈ word, h ∈ g :: rest :=
      fun word hword h hh => List.mem_cons_of_mem g (ih word hword h hh)
    rw [words]
    split
    · exact List.forall_mem_cons.mpr ⟨by simp, later⟩
    · split
      · exact List.forall_mem_cons.mpr ⟨by simp, later⟩
      · split
        · simp
        · rename_i word others cut
          rw [cut] at later
          obtain ⟨first, others⟩ := List.forall_mem_cons.mp later
          exact List.forall_mem_cons.mpr
            ⟨List.forall_mem_cons.mpr ⟨List.mem_cons_self, first⟩, others⟩

theorem wordChars_capitalized (h : ∀ c ∈ cs, isWordChar c = true) :
    ∀ c ∈ capitalized cs, isWordChar c = true := by
  cases cs with
  | nil => exact h
  | cons c rest =>
    obtain ⟨first, others⟩ := List.forall_mem_cons.mp h
    rw [capitalized, upperForm_of_isAscii (isAscii_of_isWordChar first), List.singleton_append]
    exact List.forall_mem_cons.mpr ⟨(isWordChar_cases first).1, wordChars_lower others⟩

theorem wordy_camelCase (h : Wordy name) : Wordy (camelCase name) := by
  have single : clusters name.toList = name.toList.map fun c => [c] := by
    refine clusters_of_isAscii fun c hc => ⟨isAscii_of_isWordChar (h c hc), ?_, ?_⟩ <;>
      rintro rfl <;> exact absurd (h _ hc) (by decide)
  have each : ∀ word ∈ (words (clusters name.toList)).map List.flatten,
      ∀ c ∈ word, isWordChar c = true := by
    intro word hword c hc
    obtain ⟨gs, hgs, rfl⟩ := List.mem_map.mp hword
    obtain ⟨g, hg, hc⟩ := List.mem_flatten.mp hc
    have inside := mem_of_mem_words gs hgs g hg
    rw [single] at inside
    obtain ⟨d, hd, rfl⟩ := List.mem_map.mp inside
    obtain rfl := List.mem_singleton.mp hc
    exact h c hd
  intro c hc
  rw [camelCase, String.toList_ofList, camel] at hc
  split at hc
  · cases hc
  · rename_i first others cut
    rw [cut] at each
    obtain ⟨hfirst, hothers⟩ := List.forall_mem_cons.mp each
    rcases List.mem_append.mp hc with hc | hc
    · exact wordChars_lower hfirst c hc
    · obtain ⟨word, hword, hc⟩ := List.mem_flatMap.mp hc
      exact wordChars_capitalized (hothers word hword) c hc

end Identifier

end TableSchema
