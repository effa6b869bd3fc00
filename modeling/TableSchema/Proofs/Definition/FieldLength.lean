import Mathlib.Data.List.Induction
import Mathlib.Data.Nat.Digits.Defs
import TableSchema.Proofs.Definition.Recognized

/-!
The length of a field.

A length is a number in parentheses, and for some types a precision may follow behind a comma
(`Sized`, `Precise`). Which of them may stand behind the keyword of a type, and whether nothing may,
is its rule (`LengthRule.takes_iff`). Each reader recognizes its part of this, from the digits of a
number up to the length by the rule of a type (`recognizes_readTypeLength`).
-/

namespace TableSchema.Definition

/-! ## What writes a length -/

/-- A word of digits that writes a length or a precision. -/
def IsNumber (t : Token) (n : Nat) : Prop :=
  t.isNumeric = true ∧
    Nat.ofDigits 10 (t.text.toList.reverse.map fun c => c.toNat - '0'.toNat) = n ∧ n < 2 ^ 32

/-- A text of digits is read as the number that it writes. -/
theorem decimal_eq_ofDigits (digits : List Char) :
    decimal digits = Nat.ofDigits 10 (digits.reverse.map fun c => c.toNat - '0'.toNat) := by
  induction digits using List.reverseRecOn with
  | nil => rfl
  | append_singleton digits digit ih =>
    have last : decimal (digits ++ [digit]) = decimal digits * 10 + (digit.toNat - '0'.toNat) := by
      simp [decimal, List.foldl_append]
    rw [last, ih, List.reverse_append, List.reverse_singleton, List.singleton_append, List.map_cons,
      Nat.ofDigits_cons]
    omega

theorem isNumber_iff {t : Token} {n : Nat} :
    IsNumber t n ↔ t.isNumeric = true ∧ decimal t.text.toList = n ∧ n < lengthBound := by
  rw [IsNumber, decimal_eq_ofDigits]
  rfl

/-- What stands behind an opening parenthesis: a length, with a precision where one may stand, and
the closing parenthesis. -/
inductive Bracketed (withPrecision : Bool) : List Token → Length → Prop
  | size {size closing : Token} {n : Nat} : IsNumber size n → closing.isSpecial ')' = true →
      Bracketed withPrecision [size, closing] ⟨some n, none⟩
  | precise {size comma precision closing : Token} {n p : Nat} : withPrecision = true →
      IsNumber size n → comma.isSpecial ',' = true → IsNumber precision p →
      closing.isSpecial ')' = true →
      Bracketed withPrecision [size, comma, precision, closing] ⟨some n, some p⟩

/-- The tokens that write a length for a type with some rule. -/
inductive LengthRule.Takes : LengthRule → List Token → Length → Prop
  | nothing {rule : LengthRule} : rule = .forbidden ∨ rule = .optional → Takes rule [] .absent
  | bracketed {rule : LengthRule} {opening : Token} {tokens : List Token} {length : Length} :
      rule ≠ .forbidden → opening.isSpecial '(' = true →
      Bracketed (rule == .withPrecision) tokens length → Takes rule (opening :: tokens) length

/-- The tokens write a length: a number in parentheses. -/
inductive Sized : List Token → Nat → Prop
  | parens {opening size closing : Token} {n : Nat} :
      opening.isSpecial '(' = true → IsNumber size n → closing.isSpecial ')' = true →
      Sized [opening, size, closing] n

/-- The tokens write a length and a precision: two numbers in parentheses. -/
inductive Precise : List Token → Nat → Nat → Prop
  | parens {opening size comma precision closing : Token} {n p : Nat} :
      opening.isSpecial '(' = true → IsNumber size n → comma.isSpecial ',' = true →
      IsNumber precision p → closing.isSpecial ')' = true →
      Precise [opening, size, comma, precision, closing] n p

section

variable {tokens : List Token} {length : Length}

/-- What a type takes for a length, by its rule: nothing, a length, or a length with a precision. -/
theorem LengthRule.takes_iff {rule : LengthRule} :
    rule.Takes tokens length ↔
      (rule = .forbidden ∨ rule = .optional) ∧ tokens = [] ∧ length = .absent ∨
      rule ≠ .forbidden ∧ (∃ n, Sized tokens n ∧ length = ⟨some n, none⟩) ∨
      rule = .withPrecision ∧ ∃ n p, Precise tokens n p ∧ length = ⟨some n, some p⟩ := by
  constructor
  · intro takes
    cases takes with
    | nothing free => exact .inl ⟨free, rfl, rfl⟩
    | bracketed may opens bracketed =>
      cases bracketed with
      | size writes closes => exact .inr (.inl ⟨may, _, .parens opens writes closes, rfl⟩)
      | precise places writes comma precision closes =>
        exact .inr (.inr ⟨eq_of_beq places, _, _, .parens opens writes comma precision closes, rfl⟩)
  · rintro (⟨free, rfl, rfl⟩ | ⟨may, n, ⟨opens, writes, closes⟩, rfl⟩ |
      ⟨rfl, n, p, ⟨opens, writes, comma, precision, closes⟩, rfl⟩)
    · exact .nothing free
    · exact .bracketed may opens (.size writes closes)
    · exact .bracketed (by simp) opens (.precise rfl writes comma precision closes)

theorem takes_forbidden_iff :
    LengthRule.forbidden.Takes tokens length ↔ tokens = [] ∧ length = .absent := by
  simp [LengthRule.takes_iff]

theorem takes_required_iff :
    LengthRule.required.Takes tokens length ↔ ∃ n, Sized tokens n ∧ length = ⟨some n, none⟩ := by
  simp [LengthRule.takes_iff]

theorem takes_optional_iff :
    LengthRule.optional.Takes tokens length ↔
      (tokens = [] ∧ length = .absent) ∨ ∃ n, Sized tokens n ∧ length = ⟨some n, none⟩ := by
  simp [LengthRule.takes_iff]

theorem takes_withPrecision_iff :
    LengthRule.withPrecision.Takes tokens length ↔
      (∃ n, Sized tokens n ∧ length = ⟨some n, none⟩) ∨
        ∃ n p, Precise tokens n p ∧ length = ⟨some n, some p⟩ := by
  simp [LengthRule.takes_iff]

end

/-! ## Readers -/

section

variable {tokens rest : List Seen} {mark seen : Seen} (ends : mark.token.kind = .newLine)

include ends

theorem isNumeric_of_newLine : mark.token.isNumeric = false := by
  simp [Token.isNumeric, ends]

theorem isSpecial_of_newLine (c : Char) : mark.token.isSpecial c = false := by
  simp [Token.isSpecial, Token.special?, ends]

theorem recognizes_readNumber (problem : Problem) :
    Recognizes (fun read : Nat × Entry => ∃ seen back, tokens = seen :: back ∧
        IsNumber seen.token read.1 ∧ read.2 = ⟨back, .newLine mark⟩)
      (readNumber problem ⟨tokens, .newLine mark⟩) := by
  cases tokens with
  | nil =>
    have refused : readNumber problem ⟨[], .newLine mark⟩ = .error (mark.reject problem) := by
      simp [readNumber, Entry.next, Ending.newLine?, isNumeric_of_newLine ends]
    rw [refused]
    exact .reject fun _ => by simp
  | cons seen rest =>
    simp only [readNumber, Entry.next, Except.ok_bind]
    split
    · rename_i numeric
      split
      · rename_i small
        rintro ⟨n, e⟩
        simp only [List.cons.injEq, isNumber_iff]
        constructor
        · rintro ⟨_, _, ⟨rfl, rfl⟩, ⟨_, rfl, _⟩, rfl⟩
          rfl
        · rintro ⟨⟩
          exact ⟨seen, rest, ⟨rfl, rfl⟩, ⟨numeric, rfl, small⟩, rfl⟩
      · rename_i large
        refine .reject fun read => ?_
        rintro ⟨_, _, ⟨⟩, writes, _⟩
        obtain ⟨_, value, small⟩ := isNumber_iff.mp writes
        exact large (value ▸ small)
    · rename_i noNumber
      refine .reject fun read => ?_
      rintro ⟨_, _, ⟨⟩, ⟨numeric, _⟩, _⟩
      exact noNumber numeric

/-- The tokens begin with a precision behind a comma, where one may stand, or with something else
than a comma. -/
def PrecisionFirst (withPrecision : Bool) (tokens : List Seen) : Option Nat → List Seen → Prop
  | some p, back => withPrecision = true ∧ ∃ comma digits, tokens = comma :: digits :: back ∧
      comma.token.isSpecial ',' = true ∧ IsNumber digits.token p
  | none, back => back = tokens ∧
      (withPrecision = true → ∀ seen ∈ tokens.head?, seen.token.isSpecial ',' = false)

theorem recognizes_readPrecision :
    Recognizes (fun read : Option Nat × Entry => ∃ back, PrecisionFirst true tokens read.1 back ∧
        read.2 = ⟨back, .newLine mark⟩)
      (readPrecision ⟨tokens, .newLine mark⟩) := by
  cases tokens with
  | nil =>
    have absent : readPrecision ⟨[], .newLine mark⟩ = .ok (none, ⟨[], .newLine mark⟩) := by
      simp [readPrecision, Entry.next, Ending.newLine?, isSpecial_of_newLine ends]
    rw [absent]
    refine (Recognizes.pure _).congr ?_
    rintro ⟨_ | p, e⟩ <;> simp [PrecisionFirst]
  | cons seen rest =>
    simp only [readPrecision, Entry.next, Except.ok_bind]
    cases comma : seen.token.isSpecial ',' with
    | false =>
      refine (Recognizes.pure _).congr ?_
      rintro ⟨_ | p, e⟩ <;> simp [PrecisionFirst, comma]
    | true =>
      refine Recognizes.congr ((recognizes_readNumber ends _).bind _ fun _ _ => .pure _) ?_
      rintro ⟨precision, e⟩
      constructor
      · rintro ⟨back, first, rfl⟩
        cases precision with
        | none => simp [PrecisionFirst, comma] at first
        | some p =>
          obtain ⟨_, _, digits, ⟨⟩, _, writes⟩ := first
          exact ⟨(p, ⟨back, _⟩), ⟨digits, back, rfl, writes, rfl⟩, rfl⟩
      · rintro ⟨⟨p, _⟩, ⟨digits, back, rfl, writes, rfl⟩, ⟨⟩⟩
        exact ⟨back, ⟨rfl, seen, digits, rfl, comma, writes⟩, rfl⟩

/-- Reads the closing parenthesis behind a length. -/
def readClosing (length : Length) (e : Entry) : Except Refusal (Length × Entry) := do
  let (seen, after) ← e.next
  if seen.token.isSpecial ')' then return (length, after)
  else .error (seen.reject .closeParenExpected)

theorem recognizes_readClosing (length : Length) :
    Recognizes (fun read : Length × Entry => ∃ closing back, tokens = closing :: back ∧
        closing.token.isSpecial ')' = true ∧ read = (length, ⟨back, .newLine mark⟩))
      (readClosing length ⟨tokens, .newLine mark⟩) := by
  unfold readClosing
  cases tokens with
  | nil =>
    simp only [Entry.next, Ending.newLine?, Except.ok_bind, Except.pure_eq,
      isSpecial_of_newLine ends]
    exact .reject fun _ => by simp
  | cons seen rest =>
    simp only [Entry.next, Except.ok_bind, Except.pure_eq]
    split
    · rename_i closes
      exact (Recognizes.pure _).congr fun _ => by simp [closes]
    · rename_i other
      exact .reject fun _ => by simp [other]

omit ends in
theorem readLength_eq (withPrecision : Bool) (e : Entry) :
    readLength withPrecision e = (readNumber .lengthExpected e).bind fun number =>
      (if withPrecision then readPrecision number.2 else .ok (none, number.2)).bind fun precise =>
        readClosing ⟨some number.1, precise.1⟩ precise.2 := by
  cases withPrecision <;> rfl

omit ends in
/-- What a length consists of, as it is read. -/
theorem bracketed_split_iff {withPrecision : Bool} {length : Length} {back : List Seen} :
    (∃ front, tokens = front ++ back ∧ Bracketed withPrecision (front.map Seen.token) length) ↔
      ∃ n precision digits closing rest, tokens = digits :: rest ∧ IsNumber digits.token n ∧
        PrecisionFirst withPrecision rest precision (closing :: back) ∧
        closing.token.isSpecial ')' = true ∧ length = ⟨some n, precision⟩ := by
  constructor
  · rintro ⟨front, rfl, bracketed⟩
    generalize written : front.map Seen.token = ts at bracketed
    cases bracketed with
    | size writes closes =>
      obtain ⟨digits, _, rfl, rfl, more⟩ := List.map_eq_cons_iff.mp written
      obtain ⟨closing, _, rfl, rfl, empty⟩ := List.map_eq_cons_iff.mp more
      cases List.map_eq_nil_iff.mp empty
      refine ⟨_, none, digits, closing, _, rfl, writes, ⟨rfl, fun _ => ?_⟩, closes, rfl⟩
      simp_all [Token.isSpecial]
    | precise may writes comma precision closes =>
      obtain ⟨digits, _, rfl, rfl, more⟩ := List.map_eq_cons_iff.mp written
      obtain ⟨sep, _, rfl, rfl, more'⟩ := List.map_eq_cons_iff.mp more
      obtain ⟨places, _, rfl, rfl, last⟩ := List.map_eq_cons_iff.mp more'
      obtain ⟨closing, _, rfl, rfl, empty⟩ := List.map_eq_cons_iff.mp last
      cases List.map_eq_nil_iff.mp empty
      exact ⟨_, some _, digits, closing, _, rfl, writes, ⟨may, sep, places, rfl, comma, precision⟩,
        closes, rfl⟩
  · rintro ⟨n, precision, digits, closing, rest, rfl, writes, first, closes, rfl⟩
    cases precision with
    | none =>
      obtain ⟨rfl, _⟩ := first
      exact ⟨[digits, closing], rfl, .size writes closes⟩
    | some p =>
      obtain ⟨may, comma, places, rfl, sep, precision⟩ := first
      exact ⟨[digits, comma, places, closing], rfl, .precise may writes sep precision closes⟩

/-- A length is recognized behind its opening parenthesis. -/
theorem recognizes_readLength (withPrecision : Bool) :
    Recognizes (fun read : Length × Entry => ∃ back, (∃ front, tokens = front ++ back ∧
        Bracketed withPrecision (front.map Seen.token) read.1) ∧ read.2 = ⟨back, .newLine mark⟩)
      (readLength withPrecision ⟨tokens, .newLine mark⟩) := by
  have precise (rest : List Seen) :
      Recognizes (fun read : Option Nat × Entry =>
          ∃ back, PrecisionFirst withPrecision rest read.1 back ∧ read.2 = ⟨back, .newLine mark⟩)
        (if withPrecision then readPrecision ⟨rest, .newLine mark⟩
          else .ok (none, ⟨rest, .newLine mark⟩)) := by
    cases withPrecision with
    | true => exact recognizes_readPrecision ends
    | false =>
      refine (Recognizes.pure _).congr ?_
      rintro ⟨_ | p, e⟩ <;> simp [PrecisionFirst]
  rw [readLength_eq]
  refine Recognizes.congr ((recognizes_readNumber ends _).bind (fun number read =>
    ∃ precision : Option Nat × Entry, (∃ back, PrecisionFirst withPrecision number.2.tokens
      precision.1 back ∧ precision.2 = ⟨back, .newLine mark⟩) ∧
    ∃ closing back, precision.2.tokens = closing :: back ∧ closing.token.isSpecial ')' = true ∧
      read = (⟨some number.1, precision.1⟩, ⟨back, .newLine mark⟩)) ?_) ?_
  · rintro ⟨size, _⟩ ⟨digits, rest, rfl, writes, ⟨⟩⟩
    refine (precise rest).bind _ ?_
    rintro ⟨precision, _⟩ ⟨back, _, ⟨⟩⟩
    exact recognizes_readClosing ends _
  · rintro ⟨length, e⟩
    simp only [bracketed_split_iff]
    constructor
    · rintro ⟨back, ⟨n, precision, digits, closing, rest, rfl, writes, first, closes, rfl⟩, rfl⟩
      exact ⟨(n, ⟨rest, _⟩), ⟨digits, rest, rfl, writes, rfl⟩, (precision, ⟨closing :: back, _⟩),
        ⟨_, first, rfl⟩, closing, back, rfl, closes, rfl⟩
    · rintro ⟨⟨n, _⟩, ⟨digits, rest, rfl, writes, ⟨⟩⟩, ⟨precision, _⟩, ⟨_, first, ⟨⟩⟩, closing,
        back, rfl, closes, ⟨⟩⟩
      exact ⟨back, ⟨n, precision, digits, closing, rest, rfl, writes, first, closes, rfl⟩, rfl⟩

/-- The tokens begin with a length for a type with some rule, and `back` is left. -/
def LengthFirst (rule : LengthRule) (tokens : List Seen) (length : Length) (back : List Seen) :
    Prop :=
  ∃ front, tokens = front ++ back ∧ rule.Takes (front.map Seen.token) length ∧
    (front = [] → ∀ seen ∈ back.head?, seen.token.isSpecial '(' = false)

variable {rule : LengthRule} {length : Length} {back : List Seen}

omit ends in
theorem lengthFirst_of_plain (plain : ∀ seen ∈ tokens.head?, seen.token.isSpecial '(' = false) :
    LengthFirst rule tokens length back ↔
      (rule = .forbidden ∨ rule = .optional) ∧ length = .absent ∧ back = tokens := by
  constructor
  · rintro ⟨front, rfl, takes, _⟩
    cases front with
    | nil =>
      cases takes with
      | nothing free => exact ⟨free, rfl, rfl⟩
    | cons seen front =>
      cases takes with
      | bracketed _ opens => simp [opens] at plain
  · rintro ⟨free, rfl, rfl⟩
    exact ⟨[], rfl, .nothing free, fun _ => plain⟩

omit ends in
theorem lengthFirst_of_opening (opens : seen.token.isSpecial '(' = true) :
    LengthFirst rule (seen :: rest) length back ↔ rule ≠ .forbidden ∧ ∃ front,
      rest = front ++ back ∧ Bracketed (rule == .withPrecision) (front.map Seen.token) length := by
  constructor
  · rintro ⟨front, split, takes, plain⟩
    cases front with
    | nil =>
      subst split
      simp [opens] at plain
    | cons _ front =>
      cases split
      cases takes with
      | bracketed may _ bracketed => exact ⟨may, front, rfl, bracketed⟩
  · rintro ⟨may, front, rfl, bracketed⟩
    exact ⟨seen :: front, rfl, .bracketed may opens bracketed, by simp⟩

/-- The length of a type is recognized by the rule of the type. -/
theorem recognizes_readTypeLength (type : FieldType) :
    Recognizes (fun read : Length × Entry => ∃ back,
        LengthFirst type.lengthRule tokens read.1 back ∧ read.2 = ⟨back, .newLine mark⟩)
      (readTypeLength type ⟨tokens, .newLine mark⟩) := by
  unfold readTypeLength
  generalize type.lengthRule = rule
  have closed (plain : ∀ seen ∈ tokens.head?, seen.token.isSpecial '(' = false)
      (free : rule = .forbidden ∨ rule = .optional) :
      Recognizes (fun read : Length × Entry => ∃ back,
          LengthFirst rule tokens read.1 back ∧ read.2 = ⟨back, .newLine mark⟩)
        (.ok (.absent, ⟨tokens, .newLine mark⟩)) := by
    refine (Recognizes.pure _).congr ?_
    rintro ⟨length, e⟩
    simp [lengthFirst_of_plain plain, free]
  have stuck (plain : ∀ seen ∈ tokens.head?, seen.token.isSpecial '(' = false)
      (needs : ¬(rule = .forbidden ∨ rule = .optional)) (read : Length × Entry) :
      ¬∃ back, LengthFirst rule tokens read.1 back ∧ read.2 = ⟨back, .newLine mark⟩ := by
    rintro ⟨_, first, _⟩
    exact needs ((lengthFirst_of_plain plain).mp first).1
  cases tokens with
  | nil =>
    simp only [Entry.next, Ending.newLine?, Except.ok_bind, Except.pure_eq,
      isSpecial_of_newLine ends]
    cases rule with
    | forbidden => exact closed (by simp) (.inl rfl)
    | optional => exact closed (by simp) (.inr rfl)
    | required | withPrecision => exact .reject (stuck (by simp) (by simp))
  | cons seen rest =>
    simp only [Entry.next, Except.ok_bind, Except.pure_eq]
    cases opens : seen.token.isSpecial '(' with
    | false =>
      cases rule with
      | forbidden => exact closed (by simp [opens]) (.inl rfl)
      | optional => exact closed (by simp [opens]) (.inr rfl)
      | required | withPrecision => exact .reject (stuck (by simp [opens]) (by simp))
    | true =>
      simp only [lengthFirst_of_opening opens]
      have behind := @recognizes_readLength rest mark ends (rule == .withPrecision)
      cases rule with
      | forbidden => exact .reject fun _ => by simp
      | optional | required | withPrecision => exact behind.congr fun _ => by simp

end

end TableSchema.Definition
