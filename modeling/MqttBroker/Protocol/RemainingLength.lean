import Mathlib.Data.List.Basic
import Mathlib.Data.UInt

/-! The remaining length in front of an MQTT packet: seven bits a byte, the
lowest first, every byte but the last with its highest bit set. -/
namespace MqttBroker.RemainingLength

/-- Another length byte follows. -/
def Continues (byte : UInt8) : Prop := byte &&& 128 ≠ 0

instance : DecidablePred Continues := fun byte => inferInstanceAs (Decidable (byte &&& 128 ≠ 0))

/-- The length bytes in front of a stream: up to the first that does not
continue, or all of it. -/
def lengthBytes : List UInt8 → List UInt8
  | [] => []
  | byte :: rest => if Continues byte then byte :: lengthBytes rest else [byte]

/-- The length in front of a stream ends. -/
def Ended (stream : List UInt8) : Prop := ∃ byte ∈ stream, ¬ Continues byte

instance (stream : List UInt8) : Decidable (Ended stream) :=
  inferInstanceAs (Decidable (∃ byte ∈ stream, ¬ Continues byte))

/-- The number that length bytes stand for. -/
def value : List UInt8 → Nat
  | [] => 0
  | byte :: rest => (byte &&& 127).toNat + 128 * value rest

/-- The bytes are those of one length, whether or not it is the shortest. -/
def Whole : List UInt8 → Prop
  | [] => False
  | byte :: rest => if Continues byte then Whole rest else rest = []

instance decidableWhole : (bytes : List UInt8) → Decidable (Whole bytes)
  | [] => inferInstanceAs (Decidable False)
  | byte :: rest =>
    have := decidableWhole rest
    inferInstanceAs (Decidable (if Continues byte then Whole rest else rest = []))

variable {stream bytes rest : List UInt8} {byte : UInt8}

theorem lengthBytes_last (last : ¬ Continues byte) : lengthBytes (byte :: stream) = [byte] := by
  rw [lengthBytes, if_neg last]

theorem lengthBytes_next (more : Continues byte) :
    lengthBytes (byte :: stream) = byte :: lengthBytes stream := by
  rw [lengthBytes, if_pos more]

theorem ended_last (last : ¬ Continues byte) : Ended (byte :: stream) :=
  ⟨byte, List.mem_cons_self, last⟩

theorem ended_next (more : Continues byte) : Ended (byte :: stream) ↔ Ended stream := by
  simp [Ended, more]

theorem not_ended_nil : ¬ Ended [] := by simp [Ended]

theorem lengthBytes_whole (whole : Whole bytes) (rest : List UInt8) :
    lengthBytes (bytes ++ rest) = bytes ∧ Ended (bytes ++ rest) := by
  induction bytes with
  | nil => exact absurd whole id
  | cons byte bytes ih =>
    unfold Whole at whole
    by_cases more : Continues byte
    · rw [if_pos more] at whole
      obtain ⟨same, ended⟩ := ih whole
      rw [List.cons_append, lengthBytes_next more, same, ended_next more]
      exact ⟨rfl, ended⟩
    · rw [if_neg more] at whole
      subst whole
      exact ⟨lengthBytes_last more, ended_last more⟩

/-- The shortest bytes for a number, at most so many. -/
def encode : Nat → Nat → List UInt8
  | 0, _ => []
  | bytes + 1, n => if n < 128 then [.ofNat n] else .ofNat (n % 128 + 128) :: encode bytes (n / 128)

end MqttBroker.RemainingLength
