import Mathlib.Data.List.Chain
import Mathlib.Data.List.Pairwise
import Mathlib.Data.Set.Function
import TableSchema.Proofs.Identifier.Capitals

/-!
Field names and names in capitals tell each other.

A field name in camel case begins with a lower letter, goes on with letters and digits, and has no
lower letter right behind a digit (`Camel`). It can be cut in front of its capitals, and then it is
a word in lower form and some words that keep a capital at their start (`Camel.exists_words`,
`camel_of_words`). The same words, in capitals and with underscores between them, are a name in
capitals. So each of the two names leads to the other and is told back from it, on every way to
field names that obeys the laws of `FieldNaming` (`capsCase_bijOn`).

A lower letter behind a digit is lost on the way back, since it would begin a word there: from `a1b`
comes `A1B`, and from that `a1B`.
-/

namespace TableSchema.Identifier

open Text

/-- The two characters may stand side by side in a field name. -/
def Joins (c d : Char) : Prop := ¬(c.isDigit = true ∧ d.isLower = true)

instance : DecidableRel Joins := fun _ _ => inferInstanceAs (Decidable (¬_))

/-- A lower letter, then letters and digits, but no lower letter right behind a digit. -/
structure Camel (name : String) : Prop where
  first : name.toList.head?.any Char.isLower = true
  chars : ∀ c ∈ name.toList, c.isAlphanum = true
  joined : name.toList.IsChain Joins

/-! ## Letters and digits -/

section

variable {c : Char}

/-- A lower letter is the lower form of a capital. -/
theorem exists_toLower_of_isLower (h : c.isLower = true) :
    ∃ u : Char, u.isUpper = true ∧ u.toLower = c := by
  have raised : c.isLower = true → c.toUpper.isUpper = true ∧ c.toUpper.toLower = c :=
    forall_isAscii (P := fun c => c.isLower = true →
      c.toUpper.isUpper = true ∧ c.toUpper.toLower = c) (by decide +kernel) (isAscii_of_isLower h)
  exact ⟨c.toUpper, raised h⟩

/-- The lower form of a capital is a lower letter. -/
theorem isLower_toLower_of_isUpper (h : c.isUpper = true) : c.toLower.isLower = true :=
  forall_isAscii (P := fun c => c.isUpper = true → c.toLower.isLower = true) (by decide +kernel)
    (isAscii_of_isUpper h) h

theorem isDigit_of_isLower (h : c.isLower = true) : c.isDigit = false :=
  forall_isAscii (P := fun c => c.isLower = true → c.isDigit = false) (by decide +kernel)
    (isAscii_of_isLower h) h

theorem isLower_of_isCapital (h : isCapital c = true) : c.isLower = false :=
  forall_isCapital (P := fun c => c.isLower = false) (by decide +kernel) h

theorem isAlphanum_of_isCapital (h : isCapital c = true) :
    c.isAlphanum = true ∧ c.toLower.isAlphanum = true :=
  forall_isCapital (P := fun c => c.isAlphanum = true ∧ c.toLower.isAlphanum = true)
    (by decide +kernel) h

end

/-! ## The words of a field name -/

section

variable {c : Char} {letters digits w : List Char} {ws : List (List Char)}

theorem lower_word (upper : ∀ c ∈ letters, c.isUpper = true)
    (digit : ∀ c ∈ digits, c.isDigit = true) :
    lower (letters ++ digits) = letters.map Char.toLower ++ digits := by
  rw [lower_append_digits upper digit, lower_of_isCapital (isCapital_of_isUpper upper)]

theorem capitalized_word (upper : ∀ d ∈ c :: letters, d.isUpper = true)
    (digit : ∀ d ∈ digits, d.isDigit = true) :
    capitalized (c :: letters ++ digits) = c :: (letters.map Char.toLower ++ digits) := by
  rw [capitalized_append_digits (List.cons_ne_nil _ _) upper digit,
    capitalized_of_isCapital (isCapital_of_isUpper upper), List.cons_append]

/-- What is left of a field name from some place on: the rest of a word, and other words. -/
theorem exists_words_of_isChain {cs : List Char} (chars : ∀ c ∈ cs, c.isAlphanum = true)
    (joined : cs.IsChain Joins) :
    ∃ (letters digits : List Char) (ws : List (List Char)),
      cs = letters.map Char.toLower ++ digits ++ ws.flatMap capitalized ∧
      (∀ c ∈ letters, c.isUpper = true) ∧ (∀ c ∈ digits, c.isDigit = true) ∧
      ∀ w ∈ ws, CapitalWord w := by
  induction cs with
  | nil => exact ⟨[], [], [], rfl, by simp, by simp, by simp⟩
  | cons c rest ih =>
    obtain ⟨alphanumeric, later⟩ := List.forall_mem_cons.mp chars
    obtain ⟨apart, joined⟩ := List.isChain_cons.mp joined
    obtain ⟨letters, digits, ws, rfl, upper, digit, capital⟩ := ih later joined
    have kinds : (c.isUpper = true ∨ c.isLower = true) ∨ c.isDigit = true :=
      (Bool.or_eq_true_iff.mp alphanumeric).imp_left Bool.or_eq_true_iff.mp
    rcases kinds with (isUpper | isLower) | isDigit
    · -- a capital begins a word of its own
      have word : ∀ d ∈ c :: letters, d.isUpper = true := List.forall_mem_cons.mpr ⟨isUpper, upper⟩
      have begins : CapitalWord (c :: letters ++ digits) :=
        ⟨c :: letters, digits, rfl, List.cons_ne_nil _ _, word, digit⟩
      refine ⟨[], [], (c :: letters ++ digits) :: ws, ?_, by simp, by simp,
        List.forall_mem_cons.mpr ⟨begins, capital⟩⟩
      rw [List.flatMap_cons, capitalized_word word digit]
      rfl
    · obtain ⟨u, isUpper, rfl⟩ := exists_toLower_of_isLower isLower
      have word : ∀ d ∈ u :: letters, d.isUpper = true := List.forall_mem_cons.mpr ⟨isUpper, upper⟩
      exact ⟨u :: letters, digits, ws, rfl, word, digit, capital⟩
    · -- the letters of a word are in front of its digits
      have none : letters = [] := by
        cases letters with
        | nil => rfl
        | cons u letters =>
          have small := isLower_toLower_of_isUpper (upper u List.mem_cons_self)
          exact absurd ⟨isDigit, small⟩ (apart u.toLower rfl)
      subst none
      have behind : ∀ d ∈ c :: digits, d.isDigit = true := List.forall_mem_cons.mpr ⟨isDigit, digit⟩
      exact ⟨[], c :: digits, ws, rfl, by simp, behind, capital⟩

/-- A word that keeps its first letter begins with a capital. -/
theorem CapitalWord.exists_capitalized (h : CapitalWord w) :
    ∃ c rest, capitalized w = c :: rest ∧ c.isUpper = true := by
  obtain ⟨c, rest, rfl, isUpper⟩ := h.exists_cons
  exact ⟨c, _, capitalized_of_isCapital h.isCapital, isUpper⟩

/-- A field name is made of words, the first of which is lowered. -/
theorem Camel.exists_words {name : String} (h : Camel name) :
    ∃ w ws, name.toList = lower w ++ ws.flatMap capitalized ∧ ∀ v ∈ w :: ws, CapitalWord v := by
  obtain ⟨letters, digits, ws, split, upper, digit, capital⟩ :=
    exists_words_of_isChain h.chars h.joined
  have filled : letters ≠ [] := by
    rintro rfl
    have first := h.first
    rw [split] at first
    -- without them the name begins with a digit or with a capital
    cases digits with
    | cons d digits =>
      have large := isLower_of_isCapital (isCapital_of_isDigit digit d List.mem_cons_self)
      exact absurd first (by simp [large])
    | nil =>
      cases ws with
      | nil => cases first
      | cons w ws =>
        obtain ⟨c, rest, begins, isUpper⟩ := (capital w List.mem_cons_self).exists_capitalized
        have large := isLower_of_isCapital (c := c) (by simp [isCapital, isUpper])
        exact absurd first (by simp [begins, large])
  exact ⟨letters ++ digits, ws, by rw [split, lower_word upper digit],
    List.forall_mem_cons.mpr ⟨⟨letters, digits, rfl, filled, upper, digit⟩, capital⟩⟩

/-- In a word the digits come behind the letters. -/
theorem isChain_word (upper : ∀ c ∈ letters, c.isUpper = true)
    (digit : ∀ c ∈ digits, c.isDigit = true) :
    (letters.map Char.toLower ++ digits).IsChain Joins := by
  have letter : ∀ c ∈ letters.map Char.toLower, c.isDigit = false := by
    intro c hc
    obtain ⟨u, hu, rfl⟩ := List.mem_map.mp hc
    exact isDigit_of_isLower (isLower_toLower_of_isUpper (upper u hu))
  have large : ∀ d ∈ digits, d.isLower = false := fun d hd =>
    isLower_of_isCapital (isCapital_of_isDigit digit d hd)
  refine (List.pairwise_append.mpr ⟨?_, ?_, ?_⟩).isChain
  · exact List.pairwise_of_forall_mem_list fun c hc _ _ => by simp [Joins, letter c hc]
  · exact List.pairwise_of_forall_mem_list fun _ _ d hd => by simp [Joins, large d hd]
  · exact fun c hc _ _ => by simp [Joins, letter c hc]

/-- The words behind the first one fit together. -/
theorem isChain_flatMap_capitalized (capital : ∀ w ∈ ws, CapitalWord w) :
    (ws.flatMap capitalized).IsChain Joins ∧
      ∀ d ∈ (ws.flatMap capitalized).head?, d.isLower = false := by
  induction ws with
  | nil => exact ⟨.nil, by simp⟩
  | cons w ws ih =>
    obtain ⟨⟨letters, digits, rfl, filled, upper, digit⟩, later⟩ := List.forall_mem_cons.mp capital
    obtain ⟨chain, large⟩ := ih later
    obtain ⟨c, letters, rfl⟩ := List.exists_cons_of_ne_nil filled
    obtain ⟨isUpper, others⟩ := List.forall_mem_cons.mp upper
    have first := isLower_of_isCapital (c := c) (by simp [isCapital, isUpper])
    have noDigit : c.isDigit = false := by
      cases isDigit : c.isDigit with
      | false => rfl
      | true => cases (isUpper_of_isDigit isDigit).symm.trans isUpper
    rw [List.flatMap_cons, capitalized_word upper digit]
    refine ⟨List.IsChain.append ?_ chain fun c _ d hd => by simp [Joins, large d hd], ?_⟩
    · exact List.isChain_cons.mpr ⟨fun d _ => by simp [Joins, noDigit], isChain_word others digit⟩
    · rintro _ ⟨⟩
      exact first

/-- Words of which the first is lowered make a field name. -/
theorem camel_of_words {name : String} (split : name.toList = lower w ++ ws.flatMap capitalized)
    (capital : ∀ v ∈ w :: ws, CapitalWord v) : Camel name := by
  obtain ⟨hw, hws⟩ := List.forall_mem_cons.mp capital
  obtain ⟨chain, large⟩ := isChain_flatMap_capitalized hws
  refine ⟨?_, ?_, ?_⟩ <;> rw [split]
  · obtain ⟨c, rest, rfl, isUpper⟩ := hw.exists_cons
    rw [lower_of_isCapital hw.isCapital]
    exact isLower_toLower_of_isUpper isUpper
  · intro c hc
    rcases List.mem_append.mp hc with hc | hc
    · rw [lower_of_isCapital hw.isCapital] at hc
      obtain ⟨u, hu, rfl⟩ := List.mem_map.mp hc
      exact (isAlphanum_of_isCapital (hw.isCapital u hu)).2
    · obtain ⟨v, hv, hc⟩ := List.mem_flatMap.mp hc
      have capital := (hws v hv).isCapital
      obtain ⟨u, rest, rfl, _⟩ := (hws v hv).exists_cons
      rw [capitalized_of_isCapital capital] at hc
      obtain ⟨first, others⟩ := List.forall_mem_cons.mp capital
      rcases List.mem_cons.mp hc with rfl | hc
      · exact (isAlphanum_of_isCapital first).1
      · obtain ⟨d, hd, rfl⟩ := List.mem_map.mp hc
        exact (isAlphanum_of_isCapital (others d hd)).2
  · obtain ⟨letters, digits, rfl, _, upper, digit⟩ := hw
    rw [lower_word upper digit]
    exact (isChain_word upper digit).append chain fun c _ d hd => by simp [Joins, large d hd]

end

/-! ## Both ways -/

variable {name : String}

theorem toList_capsCase {w : List Char} {ws : List (List Char)}
    (split : name.toList = lower w ++ ws.flatMap capitalized)
    (capital : ∀ v ∈ w :: ws, CapitalWord v) : (capsCase name).toList = w ++ behind ws := by
  rw [capsCase, String.toList_ofList, split, caps_of_capital capital]

/-- The column name that belongs to a field name is a name in capitals. -/
theorem capital_capsCase (h : Camel name) : Capital (capsCase name) := by
  obtain ⟨w, ws, split, capital⟩ := h.exists_words
  rw [Capital, toList_capsCase split capital, splitOn_behind capital]
  exact capital

namespace FieldNaming

variable {f : String → String}

/-- A field name is told back from its column name. -/
theorem apply_capsCase (naming : FieldNaming f) (h : Camel name) : f (capsCase name) = name := by
  obtain ⟨w, ws, split, capital⟩ := h.exists_words
  have spelled : capsCase name = String.ofList (w ++ behind ws) := by
    rw [← toList_capsCase split capital, String.ofList_toList]
  rw [spelled, naming.apply_words capital, ← split, String.ofList_toList]

/-- The field name that belongs to a name in capitals is in camel case. -/
theorem camel_apply (naming : FieldNaming f) (h : Capital name) : Camel (f name) := by
  obtain ⟨w, ws, split, whole⟩ := exists_words name
  rw [Capital, split] at h
  have spelled : name = String.ofList (w ++ behind ws) := by rw [← whole, String.ofList_toList]
  refine camel_of_words ?_ h
  rw [spelled, naming.apply_words h, String.toList_ofList]

end FieldNaming

/-- Field names in camel case and names in capitals belong together one by one: each leads to the
other, and the way there and back ends where it began. This holds of every way to field names that
obeys the laws, and the one that is taken does. -/
theorem capsCase_bijOn :
    FieldNaming camelCase ∧ ∀ f, FieldNaming f →
      Set.InvOn f capsCase {name | Camel name} {name | Capital name} ∧
      Set.BijOn capsCase {name | Camel name} {name | Capital name} ∧
      Set.BijOn f {name | Capital name} {name | Camel name} := by
  refine ⟨fieldNaming_camelCase, fun f naming => ?_⟩
  have inverse : Set.InvOn f capsCase {name | Camel name} {name | Capital name} :=
    ⟨fun _ camel => naming.apply_capsCase camel, fun _ capital => naming.capsCase_apply capital⟩
  have there : Set.MapsTo capsCase {name | Camel name} {name | Capital name} :=
    fun _ camel => capital_capsCase camel
  have back : Set.MapsTo f {name | Capital name} {name | Camel name} :=
    fun _ capital => naming.camel_apply capital
  exact ⟨inverse, inverse.bijOn there back, inverse.symm.bijOn back there⟩

/-- A field name with words of one letter and a digit, its column name, and a name outside: there
the lower letter behind the digit comes back as a capital. -/
theorem capsCase_bijOn_empID2 :
    Camel "empID2" ∧ capsCase "empID2" = "EMP_I_D2" ∧
    camelCase (capsCase "empID2") = "empID2" ∧ capsCase (camelCase "EMP_I_D2") = "EMP_I_D2" ∧
    ¬Camel "a1b" ∧ camelCase (capsCase "a1b") = "a1B" := by
  obtain ⟨naming, bijective⟩ := capsCase_bijOn
  obtain ⟨⟨told, told'⟩, _, _⟩ := bijective camelCase naming
  have camel : Camel "empID2" := ⟨by decide, List.all_eq_true.mp (by decide), by decide⟩
  have capital : Capital "EMP_I_D2" := by decide
  refine ⟨camel, by decide +kernel, told camel, told' capital, ?_, by decide +kernel⟩
  rintro ⟨_, _, joined⟩
  revert joined
  decide

end TableSchema.Identifier
