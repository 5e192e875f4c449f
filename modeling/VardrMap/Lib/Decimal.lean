import VardrMap.Lib.Text

/-!
# Numbers in decimal digits

The text of a number consists of digits and names the number.
-/
namespace Lib

theorem isDigit_of_mem_toString {c : Char} {n : ℕ} (h : c ∈ (toString n).toList) :
    c.isDigit = true := by
  rw [Nat.toString_eq_repr, Nat.toList_repr] at h
  exact Nat.isDigit_of_mem_toDigits (by decide) (by decide) h

theorem notMem_toString {c : Char} (hc : c.isDigit = false) (n : ℕ) : c ∉ (toString n).toList := by
  intro h
  rw [isDigit_of_mem_toString h] at hc
  cases hc

theorem toString_inj {m n : ℕ} (h : (toString m).toList = (toString n).toList) : m = n := by
  rw [Nat.toString_eq_repr, Nat.toString_eq_repr, Nat.toList_repr, Nat.toList_repr] at h
  have hm := Nat.ofDigitChars_ten_toDigits (n := m)
  rwa [h, Nat.ofDigitChars_ten_toDigits, eq_comm] at hm

end Lib
