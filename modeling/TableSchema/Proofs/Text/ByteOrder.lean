import TableSchema.Proofs.Text.Bytes

/-!
The order of texts by their bytes.

The bytes of a character compare as the characters do: a longer character begins with a greater
byte, and the bytes of two characters of one length are the digits of their codes, the highest
first. So texts are in the same order whether their characters or their bytes are compared.
-/

namespace TableSchema.Text

theorem ofNat_cons_lt_cons {m n : Nat} (hm : m < 256) (hn : n < 256) {s t : List UInt8} :
    UInt8.ofNat m :: s < UInt8.ofNat n :: t ↔ m < n ∨ m = n ∧ s < t := by
  rw [List.cons_lt_cons_iff, UInt8.lt_iff_toNat_lt, ← UInt8.toNat_inj, UInt8.toNat_ofNat_of_lt' hm,
    UInt8.toNat_ofNat_of_lt' hn]

/-- The bytes of a smaller character come first, whatever stands behind them. -/
theorem utf8EncodeChar_append_lt {a b : Char} (less : a < b) (s t : List UInt8) :
    String.utf8EncodeChar a ++ s < String.utf8EncodeChar b ++ t := by
  have codes : a.val.toNat < b.val.toNat := less
  have bound : b.val.toNat ≤ 0x10FFFF := by
    have valid := b.valid
    simp only [UInt32.isValidChar, Nat.isValidChar] at valid
    omega
  simp only [String.utf8EncodeChar.eq_def]
  generalize a.val.toNat = m at *
  generalize b.val.toNat = n at *
  have highest : n / 262144 % 8 = n / 262144 := Nat.mod_eq_of_lt (by omega)
  have highest' : m / 262144 % 8 = m / 262144 := Nat.mod_eq_of_lt (by omega)
  -- each of the two is as long as its code asks for; a longer first one is excluded
  split_ifs <;>
    simp (disch := omega) only [List.cons_append, List.nil_append, ofNat_cons_lt_cons] <;> omega

theorem encode_lt_encode_of_lt {as bs : List Char} (less : as < bs) : encode as < encode bs := by
  induction less with
  | @nil b bs =>
    obtain ⟨first, rest, filled⟩ :=
      List.exists_cons_of_ne_nil (encode_ne_nil (List.cons_ne_nil b bs))
    rw [filled]
    exact List.nil_lt_cons first rest
  | rel less => exact utf8EncodeChar_append_lt less _ _
  | @cons a as bs less ih => exact List.append_left_lt ih

/-- Texts compare as their bytes do. -/
theorem utf8_lt_utf8 {a b : String} : utf8 a < utf8 b ↔ a < b := by
  constructor
  · intro less
    by_contra notLess
    rcases Decidable.em (a = b) with rfl | differ
    · exact List.lt_irrefl _ less
    · have greater : b < a := by
        by_contra notGreater
        exact differ (String.le_antisymm (String.not_lt.mp notGreater) (String.not_lt.mp notLess))
      rw [utf8_eq_encode, utf8_eq_encode] at less
      exact List.lt_asymm less (encode_lt_encode_of_lt (String.lt_iff.mp greater))
  · intro less
    rw [utf8_eq_encode, utf8_eq_encode]
    exact encode_lt_encode_of_lt (String.lt_iff.mp less)

end TableSchema.Text
