import Mathlib.Data.Fin.Basic

/-! Bytes: what holds of each of the 256 holds of all, and the laws of the
bitwise operations that are not in the library. -/
namespace MqttBroker.Logic

/-- A statement about one byte can be checked byte by byte. -/
theorem forall_byte {P : UInt8 → Prop} (all : ∀ n : Fin 256, P (.ofFin n)) (b : UInt8) : P b := by
  simpa using all b.toFin

theorem byte_or_and (a b c : UInt8) : (a ||| b) &&& c = (a &&& c) ||| (b &&& c) := by
  apply UInt8.toBitVec_inj.mp
  simp only [UInt8.toBitVec_and, UInt8.toBitVec_or, BitVec.and_or_distrib_right]

theorem toNat_up {count : UInt8} (room : count ≠ 255) : (count + 1).toNat = count.toNat + 1 := by
  have below : count.toNat ≠ 255 := fun full => room (UInt8.toNat_inj.mp full)
  have small := count.toNat_lt
  rw [UInt8.toNat_add]
  change (count.toNat + 1) % 256 = _
  omega

theorem toNat_down {count : UInt8} (live : count ≠ 0) : (count - 1).toNat = count.toNat - 1 := by
  have positive : count.toNat ≠ 0 := fun zero => live (UInt8.toNat_inj.mp zero)
  have small := count.toNat_lt
  rw [UInt8.toNat_sub]
  change (256 - 1 + count.toNat) % 256 = _
  omega

/-- Two bytes, the higher one first, as a word. -/
theorem word_toNat (high low : UInt8) :
    ((high.toUInt16 <<< 8) ||| low.toUInt16).toNat = 256 * high.toNat + low.toNat := by
  have high_lt := high.toNat_lt
  have low_lt := low.toNat_lt
  have shifted : (high.toUInt16 <<< 8).toNat = high.toNat <<< 8 := by
    have eight : (8 : UInt16).toNat % 16 = 8 := rfl
    rw [UInt16.toNat_shiftLeft, UInt8.toNat_toUInt16, eight, Nat.shiftLeft_eq]
    omega
  rw [UInt16.toNat_or, shifted, UInt8.toNat_toUInt16, ← Nat.shiftLeft_add_eq_or_of_lt (by omega),
    Nat.shiftLeft_eq]
  omega

end MqttBroker.Logic
