import NovaOs.Lib.Places
import Mathlib.Data.UInt

/-!
# The byte order of the network (`kernel/network/network_stack.c`)

The machine stores the lowest byte of a number first, and the network sends the highest first.
-/

namespace NovaOs.Network

open Lib

def novaHtonl (hostlong : UInt32) : UInt32 :=
  ((hostlong &&& 0x000000FF) <<< 24) ||| ((hostlong &&& 0x0000FF00) <<< 8) |||
    ((hostlong &&& 0x00FF0000) >>> 8) ||| ((hostlong &&& 0xFF000000) >>> 24)

def novaHtons (hostshort : UInt16) : UInt16 := ((hostshort &&& 0x00FF) <<< 8) ||| ((hostshort &&& 0xFF00) >>> 8)

def novaNtohl (netlong : UInt32) : UInt32 := novaHtonl netlong

def novaNtohs (netshort : UInt16) : UInt16 := novaHtons netshort

/-! ## The bytes of the results -/

theorem toNat_novaHtons (x : UInt16) : (novaHtons x).toNat = 2 ^ 8 * (x.toNat % 256) + x.toNat / 256 := by
  have hlow : x.toNat &&& 0xFF = x.toNat % 256 := by simpa using and_mask x.toNat 0 8
  have hhigh : x.toNat &&& 0xFF00 = x.toNat / 256 % 256 * 256 := and_mask x.toNat 8 8
  have hlt := x.toNat_lt
  have hup : x.toNat % 256 * 256 % 65536 = 2 ^ 8 * (x.toNat % 256) := by omega
  have hdown : x.toNat / 256 % 256 * 256 / 256 = x.toNat / 256 := by omega
  rw [Nat.two_pow_add_eq_or_of_lt (by omega)]
  simp only [novaHtons, UInt16.toNat_or, UInt16.toNat_shiftLeft, UInt16.toNat_shiftRight, UInt16.toNat_and,
    UInt16.reduceToNat, Nat.reduceMod, Nat.shiftLeft_eq, Nat.shiftRight_eq_div_pow, Nat.reducePow, hlow, hhigh, hup,
    hdown]

theorem toNat_novaHtonl (x : UInt32) : (novaHtonl x).toNat =
    2 ^ 24 * (x.toNat % 256) + (2 ^ 16 * (x.toNat / 2 ^ 8 % 256) +
      (2 ^ 8 * (x.toNat / 2 ^ 16 % 256) + x.toNat / 2 ^ 24 % 256)) := by
  have h₀ : x.toNat &&& 0xFF = x.toNat % 256 := by simpa using and_mask x.toNat 0 8
  have h₁ : x.toNat &&& 0xFF00 = x.toNat / 2 ^ 8 % 256 * 2 ^ 8 := and_mask x.toNat 8 8
  have h₂ : x.toNat &&& 0xFF0000 = x.toNat / 2 ^ 16 % 256 * 2 ^ 16 := and_mask x.toNat 16 8
  have h₃ : x.toNat &&& 0xFF000000 = x.toNat / 2 ^ 24 % 256 * 2 ^ 24 := and_mask x.toNat 24 8
  have hlt : ∀ y, y % 256 < 256 := fun y => Nat.mod_lt y (by decide)
  simp only [novaHtonl, UInt32.toNat_or, UInt32.toNat_shiftLeft, UInt32.toNat_shiftRight, UInt32.toNat_and,
    UInt32.reduceToNat, Nat.reduceMod, Nat.shiftLeft_eq, Nat.shiftRight_eq_div_pow, h₀, h₁, h₂, h₃]
  -- From here on the four digits are any that are below 256.
  have hd₀ := hlt x.toNat
  have hd₁ := hlt (x.toNat / 2 ^ 8)
  have hd₂ := hlt (x.toNat / 2 ^ 16)
  have hd₃ := hlt (x.toNat / 2 ^ 24)
  generalize x.toNat % 256 = d₀ at *
  generalize x.toNat / 2 ^ 8 % 256 = d₁ at *
  generalize x.toNat / 2 ^ 16 % 256 = d₂ at *
  generalize x.toNat / 2 ^ 24 % 256 = d₃ at *
  have hup₀ : d₀ * 2 ^ 24 % 2 ^ 32 = 2 ^ 24 * d₀ := by omega
  have hup₁ : d₁ * 2 ^ 8 * 2 ^ 8 % 2 ^ 32 = 2 ^ 16 * d₁ := by
    rw [Nat.mul_assoc, ← Nat.pow_add, Nat.mul_comm, Nat.mod_eq_of_lt (by omega)]
  have hdown₂ : d₂ * 2 ^ 16 / 2 ^ 8 = 2 ^ 8 * d₂ := by omega
  have hdown₃ : d₃ * 2 ^ 24 / 2 ^ 24 = d₃ := Nat.mul_div_cancel d₃ (by decide)
  rw [hup₀, hup₁, hdown₂, hdown₃, Nat.or_assoc, Nat.or_assoc, Nat.two_pow_add_eq_or_of_lt (by omega),
    Nat.two_pow_add_eq_or_of_lt (by omega), Nat.two_pow_add_eq_or_of_lt (by omega)]

theorem wire_novaHtons (x : UInt16) : places 256 2 (novaHtons x).toNat = (places 256 2 x.toNat).reverse := by
  have hhigh : x.toNat / 256 % 256 = x.toNat / 256 := Nat.mod_eq_of_lt (Nat.div_lt_of_lt_mul x.toNat_lt)
  simp only [places, toNat_novaHtons, List.reverse_cons, List.reverse_nil, List.nil_append, List.cons_append,
    List.cons.injEq, and_true, Nat.reducePow]
  have hd₀ : x.toNat % 256 < 256 := Nat.mod_lt _ (by decide)
  have hd₁ : x.toNat / 256 < 256 := Nat.div_lt_of_lt_mul x.toNat_lt
  rw [hhigh]
  generalize x.toNat % 256 = d₀ at *
  generalize x.toNat / 256 = d₁ at *
  omega

theorem wire_novaHtonl (x : UInt32) : places 256 4 (novaHtonl x).toNat = (places 256 4 x.toNat).reverse := by
  have hlt : ∀ y, y % 256 < 256 := fun y => Nat.mod_lt y (by decide)
  simp only [places, toNat_novaHtonl, List.reverse_cons, List.reverse_nil, List.nil_append, List.cons_append,
    List.cons.injEq, and_true, Nat.div_div_eq_div_mul, Nat.reduceMul, Nat.reducePow]
  have hd₀ := hlt x.toNat
  have hd₁ := hlt (x.toNat / 256)
  have hd₂ := hlt (x.toNat / 65536)
  have hd₃ := hlt (x.toNat / 16777216)
  generalize x.toNat % 256 = d₀ at *
  generalize x.toNat / 256 % 256 = d₁ at *
  generalize x.toNat / 65536 % 256 = d₂ at *
  generalize x.toNat / 16777216 % 256 = d₃ at *
  omega

/-- The bytes of a converted number are stored from the highest on: they compare as the numbers do, and the conversion
back gives the number. -/
theorem hton_reverses_places :
    ReversesPlaces 256 4 UInt32.toNat novaHtonl novaNtohl ∧ ReversesPlaces 256 2 UInt16.toNat novaHtons novaNtohs :=
  ⟨.of_wire (fun x => x.toNat_lt) (fun _ _ h => UInt32.toNat_inj.mp h) wire_novaHtonl,
    .of_wire (fun x => x.toNat_lt) (fun _ _ h => UInt16.toNat_inj.mp h) wire_novaHtons⟩

end NovaOs.Network
