import NovaOs.Boot.Kernel
import NovaOs.Lib.Decimal

/-!
# The numbers that the kernel prints

The first loop of `write_unsigned` takes the digits of the number from the end, as many as the buffer has room for. There
is room for all of them.
-/

namespace NovaOs.Boot

open Lib

variable {value room : Nat}

theorem digits_eq (room value : Nat) : digits room value = ((Nat.digits 10 value).take room).map digitByte := by
  induction room generalizing value with
  | zero => rfl
  | succ room ih =>
      rw [digits]
      by_cases hzero : value = 0
      · rw [if_pos hzero, hzero, Nat.digits_zero, List.take_nil, List.map_nil]
      · rw [if_neg hzero, ih, Nat.digits_def' (by decide) (Nat.pos_of_ne_zero hzero), List.take_succ_cons, List.map_cons]
        rfl

theorem digits_of_lt (h : value < 10 ^ room) : digits room value = (Nat.digits 10 value).map digitByte := by
  rw [digits_eq, List.take_of_length_le]
  exact (Nat.digits_length_le_iff (by decide) value).mpr h

theorem serialPutc_of_isDigit {b : UInt8} (h : IsDigit b) : serialPutc b = [b] := by
  rw [serialPutc, if_neg]
  rintro rfl
  exact absurd h.1 (by decide)

theorem flatMap_serialPutc {bytes : List UInt8} (h : ∀ b ∈ bytes, IsDigit b) : bytes.flatMap serialPutc = bytes := by
  induction bytes with
  | nil => rfl
  | cons b bytes ih =>
      have hrest := ih fun b hb => h b (List.mem_cons_of_mem _ hb)
      rw [List.flatMap_cons, serialPutc_of_isDigit (h b List.mem_cons_self), hrest, List.singleton_append]

theorem isNumeral_writeUnsigned (h : value < 10 ^ 20) : IsNumeral (writeUnsigned value) value := by
  rw [writeUnsigned]
  by_cases hzero : value = 0
  · rw [if_pos hzero, hzero]
    exact isNumeral_zero
  · have hnumeral := isNumeral_digits hzero
    rw [if_neg hzero, digits_of_lt h, flatMap_serialPutc hnumeral.digits]
    exact hnumeral

/-- The number is printed as its numeral, the buffer is not left, and a larger one would get no more digits. -/
structure PrintMeets (value : Nat) : Prop where
  numeral : IsNumeral (writeUnsigned value) value
  fits : (digits 20 value).length ≤ 20
  whole : ∀ room, 20 ≤ room → digits room value = digits 20 value

theorem printMeets_of_lt (h : value < 10 ^ 20) : PrintMeets value where
  numeral := isNumeral_writeUnsigned h
  fits := by
    rw [digits_eq, List.length_map]
    exact List.length_take_le 20 _
  whole room hroom := by
    rw [digits_of_lt h, digits_of_lt (h.trans_le (Nat.pow_le_pow_right (by decide) hroom))]

/-- Every `unsigned long` is printed as its numeral, be it 32 or 64 bits wide. -/
theorem writes_numeral : (∀ value : UInt32, PrintMeets value.toNat) ∧ ∀ value : UInt64, PrintMeets value.toNat := by
  constructor
  · intro value
    have hlt := value.toNat_lt
    exact printMeets_of_lt (by omega)
  · intro value
    have hlt := value.toNat_lt
    exact printMeets_of_lt (by omega)

example : writeUnsigned (2 ^ 64 - 1) = (CString.ofString "18446744073709551615").bytes := by decide +kernel

end NovaOs.Boot
