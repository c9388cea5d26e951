import Mathlib.Data.List.Basic
import Spintax.Number.Numeral

namespace Spintax.Number

theorem valueOf_toDigits (n : Nat) : valueOf (Nat.toDigits 10 n) = n := by
  have h := Nat.ofDigitChars_ten_toDigits (n := n)
  simpa [Nat.ofDigitChars, valueOf, Nat.mul_comm] using h

theorem toDigits_of_head_zero {n : Nat} (h : (Nat.toDigits 10 n).head? = some '0') :
    Nat.toDigits 10 n = ['0'] := by
  induction n using Nat.strongRecOn with
  | ind n ih =>
    by_cases hn : n < 10
    · rw [Nat.toDigits_of_lt_base hn] at h ⊢
      have hzero : ∀ n < 10, Nat.digitChar n = '0' → n = 0 := by decide
      rw [hzero n hn (by simpa using h)]
      rfl
    · have hle : 10 ≤ n := Nat.le_of_not_lt hn
      rw [Nat.toDigits_of_base_le (by decide) hle,
        List.head?_append_of_ne_nil _ Nat.toDigits_ne_nil] at h
      have hdigits := ih (n / 10) (by omega) h
      have hvalue := valueOf_toDigits (n / 10)
      have hzero : valueOf ['0'] = 0 := rfl
      rw [hdigits, hzero] at hvalue
      omega

end Spintax.Number
