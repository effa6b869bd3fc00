import Mathlib.Data.List.Induction
import Mathlib.Data.List.TakeWhile
import TableSchema.Proofs.Text.Ascii

/-!
Names in capitals and the field names that follow from them.

A name in capitals is made of words of capitals and digits that are joined by single underscores
(`Capital`). Two laws say what becomes of such a name on the way to a field name: the first word is
lowered, and every word behind an underscore keeps its first letter (`FieldNaming`). The way that
cuts names at clusters obeys them, since the cut between the letters and the digits of a word leaves
no trace: digits have no case (`fieldNaming_camelCase`).

By these laws alone the field name is told back into the name (`FieldNaming.capsCase_apply`): every
word but the first begins with a capital in the field name, where the way back puts the underscore.
So no two names in capitals have the same field name (`FieldNaming.apply_inj`).
-/

namespace TableSchema.Identifier

open Text

/-- Capitals, with digits behind them. -/
def CapitalWord (w : List Char) : Prop :=
  ∃ letters digits, w = letters ++ digits ∧ letters ≠ [] ∧ (∀ c ∈ letters, c.isUpper = true) ∧
    ∀ c ∈ digits, c.isDigit = true

theorem capitalWord_iff {w : List Char} :
    CapitalWord w ↔
      w.head?.any Char.isUpper = true ∧ (w.dropWhile Char.isUpper).all Char.isDigit = true := by
  constructor
  · rintro ⟨letters, digits, rfl, filled, upper, digit⟩
    constructor
    · cases letters with
      | nil => exact absurd rfl filled
      | cons c letters => exact upper c List.mem_cons_self
    · rw [List.dropWhile_append_of_pos upper, List.all_eq_true]
      exact fun c hc => digit c ((List.dropWhile_sublist _).subset hc)
  · rintro ⟨first, digit⟩
    refine ⟨_, _, List.takeWhile_append_dropWhile.symm, ?_, fun c hc => List.mem_takeWhile_imp hc,
      List.all_eq_true.mp digit⟩
    cases w with
    | nil => cases first
    | cons c rest =>
      have upper : c.isUpper = true := first
      simp [upper]

instance (w : List Char) : Decidable (CapitalWord w) := decidable_of_iff _ capitalWord_iff.symm

/-- Words of capitals and digits, joined by single underscores. -/
def Capital (name : String) : Prop := ∀ w ∈ name.toList.splitOn '_', CapitalWord w

instance (name : String) : Decidable (Capital name) :=
  inferInstanceAs (Decidable (∀ w ∈ name.toList.splitOn '_', CapitalWord w))

/-- Every character is a cluster of its own. -/
def singles (cs : List Char) : List (List Char) := cs.map fun c => [c]

/-! ## Where words end -/

/-- Capitals and digits, of which names in capitals are made besides underscores. -/
def isCapital (c : Char) : Bool := c.isUpper || c.isDigit

/-- The text is at its end, or an underscore comes. -/
def Ends (T : List (List Char)) : Prop := T = [] ∨ ∃ more, T = ['_'] :: more

section

variable {c d : Char} {T : List (List Char)}

theorem isAscii_of_isCapital (h : isCapital c = true) : isAscii c = true := by
  rcases Bool.or_eq_true_iff.mp h with upper | digit
  · exact isAscii_of_isUpper upper
  · exact isAscii_of_isDigit digit

/-- What holds of each of the 36 characters holds of capitals and digits. -/
theorem forall_isCapital {P : Char → Prop}
    (each : ∀ n < 128, isCapital (Char.ofNat n) = true → P (Char.ofNat n))
    (h : isCapital c = true) : P c :=
  forall_isAscii (P := fun c => isCapital c = true → P c) each (isAscii_of_isCapital h) h

theorem isDelimiter_of_isCapital (h : isCapital c = true) : isDelimiter [c] = false :=
  forall_isCapital (P := fun c => isDelimiter [c] = false) (by decide +kernel) h

theorem isLowerText_of_isCapital (h : isCapital c = true) : isLowerText [c] = false :=
  forall_isCapital (P := fun c => isLowerText [c] = false) (by decide +kernel) h

theorem isNumeral_of_isCapital (h : isCapital c = true) : isNumeral [c] = !c.isUpper :=
  forall_isCapital (P := fun c => isNumeral [c] = !c.isUpper) (by decide +kernel) h

theorem isUpperText_of_isCapital (h : isCapital c = true) : isUpperText [c] = c.isUpper :=
  isUpperText_singleton (isAscii_of_isCapital h)

/-- A word goes on up to an underscore. -/
theorem words_cons_of_ends (h : isCapital c = true) (ends : Ends T) :
    words ([c] :: T) = [[c]] :: (words T).tail := by
  rcases ends with rfl | ⟨more, rfl⟩
  · simp [words, isDelimiter_of_isCapital h, endsWord]
  · have quiet : isUpperText ['_'] = false ∧ isLowerText ['_'] = false ∧
        isNumeral ['_'] = false := by
      decide
    have goesOn : endsWord [c] (['_'] :: more) = false := by simp [endsWord, quiet]
    have delimiter : isDelimiter ['_'] = true := by decide
    simp [words, isDelimiter_of_isCapital h, goesOn, delimiter]

/-- A word ends between a capital and a digit. -/
theorem words_cons_of_isDigit (upper : c.isUpper = true) (digit : d.isDigit = true) :
    words ([c] :: [d] :: T) = [[c]] :: words ([d] :: T) := by
  have hc : isCapital c = true := by simp [isCapital, upper]
  have numeral : isNumeral [d] = true := by simp [isNumeral, digit]
  have cut : endsWord [c] ([d] :: T) = true := by
    simp [endsWord, isUpperText_of_isCapital hc, upper, numeral]
  rw [words, isDelimiter_of_isCapital hc, cut]
  rfl

/-- No word ends between two capitals before which no lower letter comes, nor between two digits. -/
theorem endsWord_eq_false (hc : isCapital c = true) (hd : isCapital d = true)
    (alike : c.isUpper = d.isUpper) (quiet : ∀ g ∈ T.head?, isLowerText g = false) :
    endsWord [c] ([d] :: T) = false := by
  have noLower : (T.head?.map isLowerText).getD false = false := by
    cases first : T.head? with
    | none => rfl
    | some g => exact quiet g first
  simp only [endsWord, noLower, isLowerText_of_isCapital hc, isLowerText_of_isCapital hd,
    isUpperText_of_isCapital hc, isUpperText_of_isCapital hd, isNumeral_of_isCapital hc,
    isNumeral_of_isCapital hd, alike]
  cases d.isUpper <;> rfl

/-- Within a run of capitals, and within a run of digits, no word ends. -/
theorem words_singles_append {p : Char → Bool} {run : List Char} {next : List (List (List Char))}
    (capital : ∀ c, p c = true → isCapital c = true)
    (alike : ∀ c d, p c = true → p d = true → c.isUpper = d.isUpper) (filled : run ≠ [])
    (all : ∀ c ∈ run, p c = true) (quiet : ∀ g ∈ T.head?, isLowerText g = false)
    (single : ∀ c, p c = true → words ([c] :: T) = [[c]] :: next) :
    words (singles run ++ T) = singles run :: next := by
  induction run with
  | nil => exact absurd rfl filled
  | cons c rest ih =>
    obtain ⟨hc, hrest⟩ := List.forall_mem_cons.mp all
    cases rest with
    | nil => exact single c hc
    | cons d rest =>
      obtain ⟨hd, hrest'⟩ := List.forall_mem_cons.mp hrest
      have later : ∀ g ∈ (singles rest ++ T).head?, isLowerText g = false := by
        cases rest with
        | nil => exact quiet
        | cons e rest =>
          rintro _ ⟨⟩
          exact isLowerText_of_isCapital (capital e (hrest' e List.mem_cons_self))
      have goesOn := endsWord_eq_false (capital c hc) (capital d hd) (alike c d hc hd) later
      have behind := ih (List.cons_ne_nil _ _) hrest
      simp only [singles, List.map_cons, List.cons_append] at behind goesOn ⊢
      rw [words, isDelimiter_of_isCapital (capital _ hc), goesOn, behind]
      rfl

end

/-! ## Words -/

theorem flatten_singles (cs : List Char) : (singles cs).flatten = cs := by
  induction cs with
  | nil => rfl
  | cons c rest ih => simpa [singles] using ih

theorem quiet_of_ends {T : List (List Char)} (ends : Ends T) :
    ∀ g ∈ T.head?, isLowerText g = false := by
  rcases ends with rfl | ⟨more, rfl⟩
  · simp
  · rintro _ ⟨⟩
    decide

theorem isUpper_of_isDigit {c : Char} (digit : c.isDigit = true) : c.isUpper = false :=
  forall_isAscii (P := fun c => c.isDigit = true → c.isUpper = false) (by decide +kernel)
    (isAscii_of_isDigit digit) digit

theorem lower_of_isCapital {cs : List Char} (capital : ∀ c ∈ cs, isCapital c = true) :
    lower cs = cs.map Char.toLower :=
  lower_of_isAscii fun c hc => isAscii_of_isCapital (capital c hc)

theorem capitalized_of_isCapital {c : Char} {cs : List Char}
    (capital : ∀ d ∈ c :: cs, isCapital d = true) :
    capitalized (c :: cs) = c :: cs.map Char.toLower := by
  obtain ⟨first, rest⟩ := List.forall_mem_cons.mp capital
  have same : c.toUpper = c :=
    forall_isCapital (P := fun c => c.toUpper = c) (by decide +kernel) first
  rw [capitalized, upperForm_of_isAscii (isAscii_of_isCapital first), lower_of_isCapital rest, same]
  rfl

section

variable {letters digits : List Char} {T : List (List Char)}

theorem lower_of_isDigit (digit : ∀ c ∈ digits, c.isDigit = true) : lower digits = digits := by
  rw [lower_of_isAscii fun c hc => isAscii_of_isDigit (digit c hc)]
  refine (List.map_congr_left fun c hc => ?_).trans (List.map_id' digits)
  exact forall_isAscii (P := fun c => c.isDigit = true → c.toLower = c) (by decide +kernel)
    (isAscii_of_isDigit (digit c hc)) (digit c hc)

theorem isCapital_of_isUpper (upper : ∀ c ∈ letters, c.isUpper = true) :
    ∀ c ∈ letters, isCapital c = true := by
  intro c hc
  simp [isCapital, upper c hc]

theorem isCapital_of_isDigit (digit : ∀ c ∈ digits, c.isDigit = true) :
    ∀ c ∈ digits, isCapital c = true := by
  intro c hc
  simp [isCapital, digit c hc]

theorem lower_append_digits (upper : ∀ c ∈ letters, c.isUpper = true)
    (digit : ∀ c ∈ digits, c.isDigit = true) :
    lower (letters ++ digits) = lower letters ++ digits := by
  have whole : ∀ c ∈ letters ++ digits, isCapital c = true :=
    List.forall_mem_append.mpr ⟨isCapital_of_isUpper upper, isCapital_of_isDigit digit⟩
  rw [lower_of_isCapital whole, List.map_append,
    ← lower_of_isCapital (isCapital_of_isUpper upper),
    ← lower_of_isCapital (isCapital_of_isDigit digit), lower_of_isDigit digit]

/-- Digits have no case. -/
theorem capitalized_of_isDigit (digit : ∀ c ∈ digits, c.isDigit = true) :
    capitalized digits = digits := by
  cases digits with
  | nil => rfl
  | cons d digits =>
    obtain ⟨_, others⟩ := List.forall_mem_cons.mp digit
    rw [capitalized_of_isCapital (isCapital_of_isDigit digit),
      ← lower_of_isCapital (isCapital_of_isDigit others), lower_of_isDigit others]

theorem capitalized_append_digits (filled : letters ≠ []) (upper : ∀ c ∈ letters, c.isUpper = true)
    (digit : ∀ c ∈ digits, c.isDigit = true) :
    capitalized (letters ++ digits) = capitalized letters ++ digits := by
  cases letters with
  | nil => exact absurd rfl filled
  | cons c letters =>
    obtain ⟨_, others⟩ := List.forall_mem_cons.mp upper
    rw [List.cons_append, capitalized, lower_append_digits others digit, capitalized,
      List.append_assoc]

theorem words_letters (filled : letters ≠ []) (upper : ∀ c ∈ letters, c.isUpper = true)
    (ends : Ends T) : words (singles letters ++ T) = singles letters :: (words T).tail :=
  words_singles_append (fun c hc => by simp [isCapital, hc]) (fun c d hc hd => hc.trans hd.symm)
    filled upper (quiet_of_ends ends)
    fun c hc => words_cons_of_ends (by simp [isCapital, hc]) ends

theorem words_digits (filled : digits ≠ []) (digit : ∀ c ∈ digits, c.isDigit = true)
    (ends : Ends T) : words (singles digits ++ T) = singles digits :: (words T).tail :=
  words_singles_append (fun c hc => by simp [isCapital, hc])
    (fun c d hc hd => (isUpper_of_isDigit hc).trans (isUpper_of_isDigit hd).symm) filled digit
    (quiet_of_ends ends) fun c hc => words_cons_of_ends (by simp [isCapital, hc]) ends

/-- The digits behind capitals are a word of their own. -/
theorem words_letters_digits {d : Char} (filled : letters ≠ [])
    (upper : ∀ c ∈ letters, c.isUpper = true) (digit : ∀ c ∈ d :: digits, c.isDigit = true)
    (ends : Ends T) :
    words (singles (letters ++ d :: digits) ++ T) =
      singles letters :: singles (d :: digits) :: (words T).tail := by
  have split : singles (letters ++ d :: digits) ++ T =
      singles letters ++ (singles (d :: digits) ++ T) := by
    simp [singles]
  have back := words_digits (List.cons_ne_nil _ _) digit ends
  have first : isLowerText [d] = false :=
    isLowerText_of_isCapital (isCapital_of_isDigit digit d List.mem_cons_self)
  rw [split, ← back]
  refine words_singles_append (fun c hc => by simp [isCapital, hc])
    (fun c d hc hd => hc.trans hd.symm) filled upper ?_
    fun c hc => words_cons_of_isDigit hc (digit d List.mem_cons_self)
  rintro _ ⟨⟩
  exact first

end

theorem CapitalWord.isCapital {w : List Char} (h : CapitalWord w) :
    ∀ c ∈ w, isCapital c = true := by
  obtain ⟨letters, digits, rfl, _, upper, digit⟩ := h
  exact List.forall_mem_append.mpr ⟨isCapital_of_isUpper upper, isCapital_of_isDigit digit⟩

/-- A word of a name may be cut before its digits, of which nothing is seen when the words are put
together. -/
theorem words_capitalWord {w : List Char} {T : List (List Char)} (h : CapitalWord w)
    (ends : Ends T) :
    ∃ first others, words (singles w ++ T) = first :: (others ++ (words T).tail) ∧
      lower first.flatten ++ (others.map List.flatten).flatMap capitalized = lower w ∧
      capitalized first.flatten ++ (others.map List.flatten).flatMap capitalized =
        capitalized w := by
  obtain ⟨letters, digits, rfl, filled, upper, digit⟩ := h
  cases digits with
  | nil =>
    rw [List.append_nil]
    exact ⟨singles letters, [], words_letters filled upper ends, by simp [flatten_singles],
      by simp [flatten_singles]⟩
  | cons d digits =>
    refine ⟨singles letters, [singles (d :: digits)],
      words_letters_digits filled upper digit ends, ?_, ?_⟩
    · rw [lower_append_digits upper digit]
      simp [flatten_singles, capitalized_of_isDigit digit]
    · rw [capitalized_append_digits filled upper digit]
      simp [flatten_singles, capitalized_of_isDigit digit]

/-- The words of a name, each with an underscore before it. -/
def behind (ws : List (List Char)) : List Char := ws.flatMap ('_' :: ·)

theorem ends_behind (ws : List (List Char)) : Ends (singles (behind ws)) := by
  cases ws with
  | nil => exact .inl rfl
  | cons w ws => exact .inr ⟨singles (w ++ behind ws), by simp [singles, behind]⟩

/-- The words behind the first one begin with a capital in the result. -/
theorem spoken_behind {ws : List (List Char)} (capital : ∀ w ∈ ws, CapitalWord w) :
    ((words (singles (behind ws))).tail.map List.flatten).flatMap capitalized =
      ws.flatMap capitalized := by
  induction ws with
  | nil => rfl
  | cons w ws ih =>
    obtain ⟨hw, hws⟩ := List.forall_mem_cons.mp capital
    obtain ⟨first, others, cut, _, spoken⟩ := words_capitalWord hw (ends_behind ws)
    have delimiter : isDelimiter ['_'] = true := by decide
    have whole : words (singles (behind (w :: ws))) =
        [] :: words (singles w ++ singles (behind ws)) := by
      simp only [behind, List.flatMap_cons, List.cons_append, singles, List.map_cons,
        List.map_append]
      rw [words, if_pos delimiter]
    rw [whole, List.tail_cons, cut]
    simp only [List.map_cons, List.map_append, List.flatMap_cons, List.flatMap_append, ih hws]
    rw [← List.append_assoc, spoken]

theorem mem_behind {w : List Char} {ws : List (List Char)}
    (capital : ∀ v ∈ w :: ws, CapitalWord v) :
    ∀ c ∈ w ++ behind ws, isCapital c = true ∨ c = '_' := by
  obtain ⟨hw, hws⟩ := List.forall_mem_cons.mp capital
  intro c hc
  rcases List.mem_append.mp hc with hc | hc
  · exact .inl (hw.isCapital c hc)
  · obtain ⟨v, hv, hc⟩ := List.mem_flatMap.mp hc
    rcases List.mem_cons.mp hc with rfl | hc
    · exact .inr rfl
    · exact .inl ((hws v hv).isCapital c hc)

/-- The first word is lowered, and every other one keeps its first capital. -/
theorem camel_of_capital {w : List Char} {ws : List (List Char)}
    (capital : ∀ v ∈ w :: ws, CapitalWord v) :
    camel (w ++ behind ws) = lower w ++ ws.flatMap capitalized := by
  obtain ⟨hw, hws⟩ := List.forall_mem_cons.mp capital
  have single : clusters (w ++ behind ws) = singles w ++ singles (behind ws) := by
    rw [clusters_of_isAscii]
    · exact List.map_append
    · intro c hc
      rcases mem_behind capital c hc with isCapital | rfl
      · exact forall_isCapital (P := fun c => isAscii c = true ∧ c ≠ '\r' ∧ c ≠ '\n')
          (by decide +kernel) isCapital
      · decide
  obtain ⟨first, others, cut, lowered, _⟩ := words_capitalWord hw (ends_behind ws)
  rw [camel, single, cut]
  simp only [List.map_cons, List.map_append, List.flatMap_append, spoken_behind hws]
  rw [← List.append_assoc, lowered]

/-! ## The way back -/

theorem underscored_append (a b : List Char) :
    underscored (a ++ b) = underscored a ++ underscored b := by
  induction a with
  | nil => rfl
  | cons c rest ih =>
    simp only [List.cons_append, underscored, ih]
    split <;> simp

/-- A lowered text has no capital before which an underscore could be put. -/
theorem underscored_map_toLower {cs : List Char} (capital : ∀ c ∈ cs, isCapital c = true) :
    underscored (cs.map Char.toLower) = cs.map Char.toLower := by
  induction cs with
  | nil => rfl
  | cons c rest ih =>
    obtain ⟨first, rest⟩ := List.forall_mem_cons.mp capital
    have small : c.toLower.isUpper = false :=
      forall_isCapital (P := fun c => c.toLower.isUpper = false) (by decide +kernel) first
    simp [underscored, small, ih rest]

theorem upper_map_toLower {cs : List Char} (capital : ∀ c ∈ cs, isCapital c = true) :
    upper (cs.map Char.toLower) = cs := by
  rw [upper_of_isAscii, List.map_map]
  · refine (List.map_congr_left fun c hc => ?_).trans (List.map_id' cs)
    exact forall_isCapital (P := fun c => c.toLower.toUpper = c) (by decide +kernel) (capital c hc)
  · intro c hc
    obtain ⟨d, hd, rfl⟩ := List.mem_map.mp hc
    exact forall_isCapital (P := fun c => isAscii c.toLower = true) (by decide +kernel)
      (capital d hd)

theorem CapitalWord.exists_cons {w : List Char} (h : CapitalWord w) :
    ∃ c rest, w = c :: rest ∧ c.isUpper = true := by
  obtain ⟨letters, digits, rfl, filled, upper, _⟩ := h
  cases letters with
  | nil => exact absurd rfl filled
  | cons c letters => exact ⟨c, letters ++ digits, rfl, upper c List.mem_cons_self⟩

/-- An underscore comes back before every word but the first. -/
theorem upper_underscored_capitalized {ws : List (List Char)} (capital : ∀ w ∈ ws, CapitalWord w) :
    upper (underscored (ws.flatMap capitalized)) = behind ws := by
  induction ws with
  | nil => rfl
  | cons w ws ih =>
    obtain ⟨hw, hws⟩ := List.forall_mem_cons.mp capital
    obtain ⟨c, rest, rfl, isUpper⟩ := hw.exists_cons
    obtain ⟨first, others⟩ := List.forall_mem_cons.mp hw.isCapital
    have marked : underscored (capitalized (c :: rest)) = '_' :: c :: rest.map Char.toLower := by
      rw [capitalized_of_isCapital hw.isCapital, underscored, if_pos isUpper,
        underscored_map_toLower others]
    have raised : upper ('_' :: c :: rest.map Char.toLower) = '_' :: c :: rest := by
      have letter : upper [c] = [c] :=
        forall_isCapital (P := fun c => upper [c] = [c]) (by decide +kernel) first
      have split : '_' :: c :: rest.map Char.toLower =
        ['_'] ++ ([c] ++ rest.map Char.toLower) := rfl
      rw [split, upper_append, upper_append, letter, upper_map_toLower others]
      rfl
    rw [List.flatMap_cons, underscored_append, upper_append, marked, raised, ih hws]
    rfl

theorem caps_of_capital {w : List Char} {ws : List (List Char)}
    (capital : ∀ v ∈ w :: ws, CapitalWord v) :
    caps (lower w ++ ws.flatMap capitalized) = w ++ behind ws := by
  obtain ⟨hw, hws⟩ := List.forall_mem_cons.mp capital
  obtain ⟨c, rest, rfl, _⟩ := hw.exists_cons
  obtain ⟨_, others⟩ := List.forall_mem_cons.mp hw.isCapital
  rw [lower_of_isCapital hw.isCapital, List.map_cons, List.cons_append, caps, underscored_append,
    underscored_map_toLower others, ← List.cons_append, upper_append,
    upper_underscored_capitalized hws, ← List.map_cons, upper_map_toLower hw.isCapital]

/-! ## Names -/

theorem intercalate_cons (w : List Char) (ws : List (List Char)) :
    ['_'].intercalate (w :: ws) = w ++ behind ws := by
  induction ws generalizing w with
  | nil => simp [behind]
  | cons v ws ih =>
    rw [List.intercalate_cons_cons, ih]
    simp [behind]

theorem exists_words (name : String) :
    ∃ w ws, name.toList.splitOn '_' = w :: ws ∧ name.toList = w ++ behind ws := by
  have joined : ['_'].intercalate (name.toList.splitOn '_') = name.toList :=
    List.intercalate_splitOn _
  cases split : name.toList.splitOn '_' with
  | nil => exact absurd split (List.splitOn_ne_nil _ _)
  | cons w ws =>
    rw [split] at joined
    exact ⟨w, ws, rfl, joined.symm.trans (intercalate_cons w ws)⟩

/-- Names in capitals make a name in capitals when an underscore joins them. -/
theorem Capital.append {name other : String} (h : Capital name) (h' : Capital other) :
    Capital (name ++ "_" ++ other) := by
  have split : (name ++ "_" ++ other).toList.splitOn '_' =
      name.toList.splitOn '_' ++ other.toList.splitOn '_' := by
    rw [← List.splitOn_append_cons_self]
    simp
  intro w hw
  rw [split] at hw
  rcases List.mem_append.mp hw with hw | hw
  · exact h w hw
  · exact h' w hw

theorem splitOn_behind {w : List Char} {ws : List (List Char)}
    (capital : ∀ v ∈ w :: ws, CapitalWord v) : (w ++ behind ws).splitOn '_' = w :: ws := by
  rw [← intercalate_cons]
  refine List.splitOn_intercalate '_' (fun v hv inside => ?_) (List.cons_ne_nil _ _)
  exact absurd ((capital v hv).isCapital '_' inside) (by decide)

theorem capital_of_words {w : List Char} {ws : List (List Char)}
    (capital : ∀ v ∈ w :: ws, CapitalWord v) : Capital (String.ofList (w ++ behind ws)) := by
  rw [Capital, String.toList_ofList, splitOn_behind capital]
  exact capital

/-! ## Field names -/

/-- What names in capitals become on the way to a field name. Other names are left open. -/
structure FieldNaming (f : String → String) : Prop where
  /-- The first word is lowered. -/
  first : ∀ w, CapitalWord w → f (String.ofList w) = String.ofList (w.map Char.toLower)
  /-- A word behind an underscore keeps its first letter and is lowered after it. -/
  later : ∀ name c rest, Capital name → CapitalWord (c :: rest) →
    f (name ++ "_" ++ String.ofList (c :: rest)) =
      f name ++ String.ofList (c :: rest.map Char.toLower)

theorem fieldNaming_camelCase : FieldNaming camelCase := by
  constructor
  · intro w hw
    have lowered : camel w = lower w := by
      have alone := @camel_of_capital w [] (by simpa using hw)
      simpa [behind] using alone
    rw [camelCase, String.toList_ofList, lowered, lower_of_isCapital hw.isCapital]
  · intro name c rest capital hword
    obtain ⟨w, ws, split, whole⟩ := exists_words name
    rw [Capital, split] at capital
    have longer : ∀ v ∈ w :: (ws ++ [c :: rest]), CapitalWord v := by
      rw [← List.cons_append]
      exact List.forall_mem_append.mpr ⟨capital, by simpa using hword⟩
    have spelled : (name ++ "_" ++ String.ofList (c :: rest)).toList =
        w ++ behind (ws ++ [c :: rest]) := by
      simp [whole, behind]
    rw [camelCase, camelCase, spelled, whole, camel_of_capital longer, camel_of_capital capital,
      List.flatMap_append, List.flatMap_singleton, capitalized_of_isCapital hword.isCapital,
      ← List.append_assoc, String.ofList_append]

namespace FieldNaming

variable {f : String → String} {name other : String}

/-- The field name of a name in capitals, word by word. -/
theorem apply_words (naming : FieldNaming f) {w : List Char} {ws : List (List Char)}
    (capital : ∀ v ∈ w :: ws, CapitalWord v) :
    f (String.ofList (w ++ behind ws)) = String.ofList (lower w ++ ws.flatMap capitalized) := by
  induction ws using List.reverseRecOn with
  | nil =>
    have hw := capital w List.mem_cons_self
    simpa [behind, lower_of_isCapital hw.isCapital] using naming.first w hw
  | append_singleton ws v ih =>
    rw [← List.cons_append] at capital
    obtain ⟨before, hv⟩ := List.forall_mem_append.mp capital
    have hv : CapitalWord v := hv v (List.mem_singleton.mpr rfl)
    obtain ⟨c, rest, rfl, _⟩ := hv.exists_cons
    have spelled : String.ofList (w ++ behind (ws ++ [c :: rest])) =
        String.ofList (w ++ behind ws) ++ "_" ++ String.ofList (c :: rest) := by
      apply String.toList_injective
      simp [behind]
    rw [spelled, naming.later _ c rest (capital_of_words before) hv, ih before,
      List.flatMap_append, List.flatMap_singleton, capitalized_of_isCapital hv.isCapital,
      ← String.ofList_append, List.append_assoc]

/-- The name of a column is told back from the field name that follows from it. -/
theorem capsCase_apply (naming : FieldNaming f) (h : Capital name) : capsCase (f name) = name := by
  obtain ⟨w, ws, split, whole⟩ := exists_words name
  rw [Capital, split] at h
  have spelled : name = String.ofList (w ++ behind ws) := by rw [← whole, String.ofList_toList]
  rw [spelled, naming.apply_words h, capsCase, String.toList_ofList, caps_of_capital h]

/-- Names in capitals that have the same field name are the same. -/
theorem apply_inj (naming : FieldNaming f) (h : Capital name) (h' : Capital other) :
    f name = f other ↔ name = other := by
  constructor
  · intro same
    rw [← naming.capsCase_apply h, same, naming.capsCase_apply h']
  · rintro rfl
    rfl

end FieldNaming

end TableSchema.Identifier
