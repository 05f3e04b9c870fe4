import SparqlMetrics.Text.Basic

/-!
# Facts about single bytes

A statement about every byte is checked on the 256 of them, by their two hexadecimal digits.
-/
namespace SparqlMetrics.Byte

theorem forall_of_digits {P : Byte → Prop} (h : ∀ i j : Fin 16, P (UInt8.ofNat (16 * i + j)))
    (b : Byte) : P b := by
  have same : UInt8.ofNat (16 * (b.toNat / 16) + b.toNat % 16) = b := by
    rw [Nat.div_add_mod, UInt8.ofNat_toNat]
  have small := b.toNat_lt
  exact same ▸ h ⟨b.toNat / 16, by omega⟩ ⟨b.toNat % 16, by omega⟩

theorem toUpper_toUpper (b : Byte) : b.toUpper.toUpper = b.toUpper :=
  forall_of_digits (P := fun b => b.toUpper.toUpper = b.toUpper) (by decide) b

theorem isNameStart_toUpper (b : Byte) : b.toUpper.isNameStart = b.isNameStart :=
  forall_of_digits (P := fun b => b.toUpper.isNameStart = b.isNameStart) (by decide) b

theorem isNameByte_toUpper (b : Byte) : b.toUpper.isNameByte = b.isNameByte :=
  forall_of_digits (P := fun b => b.toUpper.isNameByte = b.isNameByte) (by decide) b

end SparqlMetrics.Byte

namespace SparqlMetrics.Text

theorem toUpper_toUpper (s : Text) : toUpper (toUpper s) = toUpper s := by
  simp [toUpper, Byte.toUpper_toUpper]

end SparqlMetrics.Text
