import Mathlib.Data.Nat.Digits.Lemmas
import Mathlib.Data.UInt

/-!
# Decimal numerals

A numeral is written with the bytes of its digits, the first digit first, and read back in base 10.
-/

namespace Lib

def digitByte (d : Nat) : UInt8 := UInt8.ofNat (48 + d)

def IsDigit (b : UInt8) : Prop := 48 ≤ b ∧ b ≤ 57

def readDecimal (bytes : List UInt8) : Nat := bytes.foldl (fun n b => 10 * n + (b.toNat - 48)) 0

/-- The numeral of a number: digits only, no zero in front unless there is nothing else, and read back it is the number. -/
structure IsNumeral (bytes : List UInt8) (value : Nat) : Prop where
  digits : ∀ b ∈ bytes, IsDigit b
  zero : value = 0 → bytes = [48]
  lead : value ≠ 0 → ∃ b rest, bytes = b :: rest ∧ b ≠ 48
  reads : readDecimal bytes = value

variable {d : Nat}

theorem toNat_digitByte (h : d < 10) : (digitByte d).toNat = 48 + d := by
  rw [digitByte, UInt8.toNat_ofNat']
  omega

theorem isDigit_digitByte (h : d < 10) : IsDigit (digitByte d) := by
  simp only [IsDigit, UInt8.le_iff_toNat_le, toNat_digitByte h]
  exact ⟨Nat.le_add_right 48 d, by simp; omega⟩

theorem digitByte_ne (h : d < 10) (hne : d ≠ 0) : digitByte d ≠ 48 := by
  intro he
  have hnat := congrArg UInt8.toNat he
  rw [toNat_digitByte h] at hnat
  simp at hnat
  exact hne hnat

/-- The digits, the last one first, are the digits of what is read. -/
theorem readDecimal_reverse (ds : List Nat) (h : ∀ d ∈ ds, d < 10) :
    readDecimal (ds.map digitByte).reverse = Nat.ofDigits 10 ds := by
  rw [readDecimal, List.foldl_reverse]
  induction ds with
  | nil => rfl
  | cons d ds ih =>
      have hd := h d List.mem_cons_self
      have hds := ih fun d hd => h d (List.mem_cons_of_mem _ hd)
      rw [List.map_cons, List.foldr_cons, hds, toNat_digitByte hd, Nat.ofDigits_cons, Nat.add_sub_cancel_left]
      exact Nat.add_comm _ _

theorem isNumeral_zero : IsNumeral [48] 0 where
  digits := by simp [IsDigit]
  zero _ := rfl
  lead h := absurd rfl h
  reads := rfl

theorem isNumeral_digits {value : Nat} (h : value ≠ 0) :
    IsNumeral ((Nat.digits 10 value).map digitByte).reverse value where
  digits b hb := by
    rw [List.mem_reverse, List.mem_map] at hb
    obtain ⟨d, hd, rfl⟩ := hb
    exact isDigit_digitByte (Nat.digits_lt_base (by decide) hd)
  zero hzero := absurd hzero h
  lead _ := by
    have hne : Nat.digits 10 value ≠ [] := Nat.digits_ne_nil_iff_ne_zero.mpr h
    obtain ⟨low, hlow⟩ : ∃ low, Nat.digits 10 value = low ++ [(Nat.digits 10 value).getLast hne] :=
      ⟨_, (List.dropLast_append_getLast hne).symm⟩
    have hlast := Nat.digits_lt_base (by decide) (List.getLast_mem hne)
    refine ⟨_, (low.map digitByte).reverse, ?_, digitByte_ne hlast (Nat.getLast_digit_ne_zero 10 h)⟩
    conv_lhs => rw [hlow]
    simp
  reads := by
    rw [readDecimal_reverse _ fun d hd => Nat.digits_lt_base (by decide) hd]
    exact Nat.ofDigits_digits 10 value

end Lib
