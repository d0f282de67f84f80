import MqttBroker.Logic.Bytes
import MqttBroker.Protocol.PublishPacket
import MqttBroker.Protocol.RemainingLength

/-! Packet identifiers and the packets that answer each other: where the
identifier of a packet is, and which answer a packet asks for. -/
namespace MqttBroker.Protocol
open Logic RemainingLength

/-- The two bytes of an identifier, the lower one first. -/
def idBytes (x : UInt16) : List UInt8 := [(x &&& 0xFF).toUInt8, ((x >>> 8) &&& 0xFF).toUInt8]

theorem idBytes_word (low high : UInt8) : idBytes ((high.toUInt16 <<< 8) ||| low.toUInt16) = [low, high] := by
  have word := word_toNat high low
  have low_lt := low.toNat_lt
  have high_lt := high.toNat_lt
  generalize (high.toUInt16 <<< 8) ||| low.toUInt16 = x at word
  have eight : (8 : UInt16).toNat % 16 = 8 := rfl
  have ones : (0xFF : UInt16).toNat = 2 ^ 8 - 1 := rfl
  have lower : (x &&& 0xFF).toUInt8 = low := by
    rw [← UInt8.toNat_inj, UInt16.toNat_toUInt8, UInt16.toNat_and, ones, Nat.and_two_pow_sub_one_eq_mod, word]
    omega
  have upper : ((x >>> 8) &&& 0xFF).toUInt8 = high := by
    rw [← UInt8.toNat_inj, UInt16.toNat_toUInt8, UInt16.toNat_and, ones, Nat.and_two_pow_sub_one_eq_mod,
      UInt16.toNat_shiftRight, eight, Nat.shiftRight_eq_div_pow, word]
    omega
  rw [idBytes, lower, upper]

theorem word_idBytes (x : UInt16) :
    ((((x >>> 8) &&& 0xFF).toUInt8.toUInt16 <<< 8) ||| (x &&& 0xFF).toUInt8.toUInt16) = x := by
  have x_lt := x.toNat_lt
  have eight : (8 : UInt16).toNat % 16 = 8 := rfl
  have ones : (0xFF : UInt16).toNat = 2 ^ 8 - 1 := rfl
  rw [← UInt16.toNat_inj, word_toNat, UInt16.toNat_toUInt8, UInt16.toNat_toUInt8, UInt16.toNat_and,
    UInt16.toNat_and, ones, Nat.and_two_pow_sub_one_eq_mod, Nat.and_two_pow_sub_one_eq_mod,
    UInt16.toNat_shiftRight, eight, Nat.shiftRight_eq_div_pow]
  omega

theorem idBytes_inj {x y : UInt16} (same : idBytes x = idBytes y) : x = y := by
  obtain ⟨lower, upper, -⟩ : _ ∧ _ ∧ _ := by simpa only [idBytes, List.cons.injEq] using same
  rw [← word_idBytes x, ← word_idBytes y, lower, upper]

/-- What is behind the fixed header. -/
def bodyOf (packet : List UInt8) : List UInt8 :=
  (packet.drop 1).drop (lengthBytes (packet.drop 1)).length

/-- The identifier in front of some bytes. -/
def idAt : List UInt8 → Option (List UInt8)
  | first :: second :: _ => some [first, second]
  | _ => none

/-- The identifier of a PUBLISH, behind its topic. -/
def publishId (packet : List UInt8) : Option (List UInt8) :=
  (decodeString (bodyOf packet)).bind fun split => idAt split.2

/-- The packets that answer another one by its identifier. -/
inductive Ack
  | puback | pubrec | pubrel | pubcomp | unsuback
  deriving DecidableEq

/-- The first byte of an answer. -/
def Ack.type : Ack → UInt8
  | puback => 0x40
  | pubrec => 0x50
  | pubrel => 0x62
  | pubcomp => 0x70
  | unsuback => 0xB0

/-- The answer with an identifier. -/
def Ack.encode (kind : Ack) (x : UInt16) : List UInt8 := kind.type :: 2 :: idBytes x

/-- The answer that a first byte has the packet type of. -/
def Ack.of (head : UInt8) : Option Ack :=
  [puback, pubrec, pubrel, pubcomp, unsuback].find? fun kind => kind.type &&& 0xF0 = head &&& 0xF0

/-- The answer that a packet begins as, whatever comes behind the first byte. -/
def Ack.read (packet : List UInt8) : Option Ack := packet.head?.bind Ack.of

@[simp] theorem Ack.read_encode (kind : Ack) (x : UInt16) : read (kind.encode x) = some kind := by
  cases kind <;> rfl

theorem Ack.read_cons_congr {head head' : UInt8} (same : head &&& 0xF0 = head' &&& 0xF0) (rest : List UInt8) :
    read (head :: rest) = read (head' :: rest) := by
  simp only [read, List.head?_cons, Option.bind_some, of, same]

/-- The answer a packet asks for, with the identifier it is to have. -/
def request : List UInt8 → Option (Ack × List UInt8)
  | [] => none
  | head :: rest =>
    if head &&& 0xF0 = 0x30 then
      if qosFlags head = 1 then (publishId (head :: rest)).map (.puback, ·)
      else if qosFlags head = 2 then (publishId (head :: rest)).map (.pubrec, ·)
      else none
    else if head = 0x50 then (idAt (bodyOf (head :: rest))).map (.pubrel, ·)
    else if head = 0x62 then (idAt (bodyOf (head :: rest))).map (.pubcomp, ·)
    else if head &&& 0xF0 = 0xA0 then (idAt (bodyOf (head :: rest))).map (.unsuback, ·)
    else none

/-- No part of a length is a whole one. -/
theorem lengthBytes_part {length : List UInt8} (whole : Whole length) {n : Nat} (cut : n < length.length) :
    lengthBytes (length.take n) = length.take n := by
  induction length generalizing n with
  | nil => exact absurd whole id
  | cons byte length ih =>
    cases n with
    | zero => rfl
    | succ n =>
      unfold Whole at whole
      by_cases more : Continues byte
      · rw [if_pos more] at whole
        rw [List.take_succ_cons, lengthBytes_next more, ih whole (by simpa using cut)]
      · rw [if_neg more] at whole
        subst whole
        simp at cut

/-- The body of a packet that is read to a number of bytes. -/
theorem bodyOf_take (head : UInt8) {length : List UInt8} (whole : Whole length) (rest : List UInt8) (n : Nat) :
    bodyOf (head :: (length ++ rest).take n) = rest.take (n - length.length) := by
  change ((length ++ rest).take n).drop (lengthBytes ((length ++ rest).take n)).length = _
  rw [List.take_append]
  by_cases cut : n < length.length
  · have none : n - length.length = 0 := by omega
    rw [none, List.take_zero, List.append_nil, lengthBytes_part whole cut]
    exact List.drop_length
  · rw [List.take_of_length_le (Nat.le_of_not_lt cut), (lengthBytes_whole whole _).1, List.drop_left]

theorem decodeLength_body {turns length : Nat} {bytes body : List UInt8}
    (decoded : decodeLength turns bytes = some (length, body)) : bytes.drop (lengthBytes bytes).length = body := by
  induction turns generalizing bytes length with
  | zero => cases decoded
  | succ turns ih =>
    cases bytes with
    | nil => cases decoded
    | cons byte bytes =>
      rw [decodeLength] at decoded
      by_cases last : byte &&& 128 = 0
      · rw [if_pos last] at decoded
        cases decoded
        rw [lengthBytes_last (not_not_intro last)]
        rfl
      · rw [if_neg last] at decoded
        obtain ⟨more, rest, same⟩ := Option.map_eq_some_iff.mp decoded
        cases same
        rw [lengthBytes_next last]
        exact ih rest

/-- Where the topic of a well-formed PUBLISH is, and that it has an identifier
above QoS 0. -/
theorem decode_split {packet : List UInt8} {m : PublishPacket} (decoded : decode packet = some m) :
    ∃ head bytes rest, packet = head :: bytes ∧ m.qos = qosFlags head ∧
      decodeString (bodyOf packet) = some (m.topic, rest) ∧ (m.qos ≠ 0 → ∃ id, idAt rest = some id) := by
  cases packet with
  | nil => cases decoded
  | cons head bytes =>
    rw [decode] at decoded
    split at decoded
    · obtain ⟨⟨length, body⟩, sized, decoded⟩ := Option.bind_eq_some_iff.mp decoded
      dsimp only at decoded
      split at decoded
      · obtain ⟨⟨topic, rest⟩, split, decoded⟩ := Option.bind_eq_some_iff.mp decoded
        obtain ⟨-, qos, -, rfl, contents⟩ := decodeBody_some decoded
        have behind : bodyOf (head :: bytes) = body := decodeLength_body sized
        refine ⟨head, bytes, rest, rfl, qos, behind ▸ split, fun some_qos => ?_⟩
        obtain ⟨id, identified⟩ := (contents.resolve_left fun none => some_qos none.1).2
        rcases rest with _ | ⟨first, _ | ⟨second, more⟩⟩
        · cases identified
        · cases identified
        · exact ⟨_, rfl⟩
      · cases decoded
    · cases decoded

theorem idAt_some {bytes id : List UInt8} (found : idAt bytes = some id) :
    ∃ first second rest, bytes = first :: second :: rest ∧ id = [first, second] := by
  unfold idAt at found
  split at found
  · exact ⟨_, _, _, rfl, (Option.some.inj found).symm⟩
  · cases found

end MqttBroker.Protocol
