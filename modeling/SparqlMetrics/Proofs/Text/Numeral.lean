import SparqlMetrics.Proofs.Token.Spelling
import SparqlMetrics.Text.Numeral

/-!
# Decimal numerals are read back

A number in decimal is a run of digits, and the value of that run is the number.
-/
namespace SparqlMetrics.Text

theorem isDigit_digit {n : Nat} (h : n < 10) : (digit n).isDigit = true := by
  have all : ∀ m : Fin 10, (digit m.val).isDigit = true := by decide
  exact all ⟨n, h⟩

theorem toNat_digit {n : Nat} (h : n < 10) : (digit n).toNat - 0x30 = n := by
  have all : ∀ m : Fin 10, (digit m.val).toNat - 0x30 = m.val := by decide
  exact all ⟨n, h⟩

theorem isDigits_ofNat (n : Nat) : IsDigits (ofNat n) := by
  induction n using Nat.strongRecOn with
  | ind n ih =>
      unfold ofNat
      split
      · next small => simpa [IsDigits] using isDigit_digit small
      · next large =>
        have shorter := ih (n / 10) (by omega)
        have last := isDigit_digit (Nat.mod_lt n (by omega : 0 < 10))
        refine ⟨by simp, fun b hb => ?_⟩
        rcases List.mem_append.mp hb with hb | hb
        · exact shorter.2 b hb
        · rw [List.mem_singleton.mp hb]
          exact last

theorem digitsValue_concat (digits : Text) (b : Byte) :
    digitsValue (digits ++ [b]) = 10 * digitsValue digits + (b.toNat - 0x30) := by
  simp [digitsValue]

theorem digitsValue_ofNat (n : Nat) : digitsValue (ofNat n) = n := by
  induction n using Nat.strongRecOn with
  | ind n ih =>
      unfold ofNat
      split
      · next small =>
        have value := toNat_digit small
        simpa [digitsValue] using value
      · next large =>
        rw [digitsValue_concat, ih (n / 10) (by omega), toNat_digit (Nat.mod_lt n (by omega))]
        omega

end SparqlMetrics.Text
