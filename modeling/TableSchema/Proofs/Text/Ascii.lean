import Mathlib.Data.List.Basic
import TableSchema.Identifier

/-!
Case mapping on ASCII.

On ASCII both mappings go character by character (`upper_of_isAscii`, `lower_of_isAscii`). What is
said of every character of ASCII is checked for each of them (`forall_isAscii`).
-/

namespace TableSchema.Text

/-- What holds of the first 128 characters holds on ASCII. -/
theorem forall_isAscii {P : Char → Prop} (each : ∀ n < 128, P (Char.ofNat n)) {c : Char}
    (ascii : isAscii c = true) : P c := by
  have inside := each c.toNat (by simpa [isAscii] using ascii)
  rwa [Char.ofNat_toNat] at inside

theorem isAscii_of_isUpper {c : Char} (h : c.isUpper = true) : isAscii c = true := by
  have last : c.val ≤ 90 := (of_decide_eq_true h).2
  have small : c.toNat ≤ 90 := UInt32.le_iff_toNat_le.mp last
  simp only [isAscii, decide_eq_true_eq]
  omega

theorem isAscii_of_isDigit {c : Char} (h : c.isDigit = true) : isAscii c = true := by
  have last : c.val ≤ 57 := of_decide_eq_true (Bool.and_eq_true_iff.mp h).2
  have small : c.toNat ≤ 57 := UInt32.le_iff_toNat_le.mp last
  simp only [isAscii, decide_eq_true_eq]
  omega

theorem isAscii_of_isLower {c : Char} (h : c.isLower = true) : isAscii c = true := by
  have last : c.val ≤ 122 := of_decide_eq_true (Bool.and_eq_true_iff.mp h).2
  have small : c.toNat ≤ 122 := UInt32.le_iff_toNat_le.mp last
  simp only [isAscii, decide_eq_true_eq]
  omega

theorem upper_of_isAscii {cs : List Char} (ascii : ∀ c ∈ cs, isAscii c = true) :
    upper cs = cs.map Char.toUpper := by
  rw [upper, List.map_eq_flatMap]
  exact List.flatMap_congr fun c hc => upperForm_of_isAscii (ascii c hc)

theorem lowerAfter_of_isAscii {before cs : List Char} (ascii : ∀ c ∈ cs, isAscii c = true) :
    lowerAfter before cs = cs.map Char.toLower := by
  induction cs generalizing before with
  | nil => rfl
  | cons c rest ih =>
    obtain ⟨first, rest⟩ := List.forall_mem_cons.mp ascii
    have noSigma : c ≠ capitalSigma := by
      rintro rfl
      exact absurd first (by decide)
    simp only [lowerAfter, if_neg noSigma, lowerForm_of_isAscii first, ih rest, List.map_cons,
      List.singleton_append]

theorem lower_of_isAscii {cs : List Char} (ascii : ∀ c ∈ cs, isAscii c = true) :
    lower cs = cs.map Char.toLower := lowerAfter_of_isAscii ascii

/-- On ASCII, the characters with another form are the letters. -/
theorem isUpperText_singleton {c : Char} (ascii : isAscii c = true) :
    isUpperText [c] = c.isUpper :=
  forall_isAscii (P := fun c => isUpperText [c] = c.isUpper) (by decide +kernel) ascii

end TableSchema.Text
