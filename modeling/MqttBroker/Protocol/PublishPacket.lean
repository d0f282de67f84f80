import Mathlib.Data.List.Basic
import Mathlib.Data.UInt

/-! The PUBLISH packet of MQTT 3.1.1 and its decoding. The layout of a packet
depends on the QoS in its first byte, so a first byte that is put in front of
the rest of another packet can change what the rest means. -/
namespace MqttBroker.Protocol

/-- A well-formed PUBLISH. It has a packet identifier exactly above QoS 0, and
is a duplicate only there. -/
structure PublishPacket where
  dup : Bool
  qos : UInt8
  retain : Bool
  topic : List UInt8
  packetId : Option UInt16
  payload : List UInt8
  qos_le : qos ≤ 2
  identified : packetId.isSome ↔ qos ≠ 0
  original : dup → qos ≠ 0

/-- The flags of a first byte. -/
def dupFlag (head : UInt8) : Bool := head &&& 8 ≠ 0

def qosFlags (head : UInt8) : UInt8 := (head >>> 1) &&& 3

def retainFlag (head : UInt8) : Bool := head &&& 1 ≠ 0

/-- The remaining length, of at most as many bytes, and what is behind it. -/
def decodeLength : Nat → List UInt8 → Option (Nat × List UInt8)
  | 0, _ => none
  | _, [] => none
  | bytes + 1, byte :: rest =>
    if byte &&& 128 = 0 then some (byte.toNat, rest)
    else (decodeLength bytes rest).map fun more => ((byte &&& 127).toNat + 128 * more.1, more.2)

/-- A string with its length in front. -/
def decodeString : List UInt8 → Option (List UInt8 × List UInt8)
  | high :: low :: rest =>
    if 256 * high.toNat + low.toNat ≤ rest.length then
      some (rest.take (256 * high.toNat + low.toNat), rest.drop (256 * high.toNat + low.toNat))
    else none
  | _ => none

/-- A packet identifier, which is never 0. -/
def decodeId : List UInt8 → Option (UInt16 × List UInt8)
  | high :: low :: rest =>
    if high = 0 ∧ low = 0 then none else some ((high.toUInt16 <<< 8) ||| low.toUInt16, rest)
  | _ => none

theorem decodeId_length {bytes rest : List UInt8} {id : UInt16} (decoded : decodeId bytes = some (id, rest)) :
    bytes.length = rest.length + 2 := by
  unfold decodeId at decoded
  split at decoded
  · split at decoded
    · cases decoded
    · cases decoded
      rfl
  · cases decoded

/-- What is behind the topic, under a first byte. -/
def decodeBody (head : UInt8) (topic rest : List UInt8) : Option PublishPacket :=
  if zero : qosFlags head = 0 then
    if dupFlag head then none
    else some ⟨false, 0, retainFlag head, topic, none, rest, by decide, by simp, by simp⟩
  else if valid : qosFlags head ≤ 2 then
    (decodeId rest).map fun identified =>
      ⟨dupFlag head, qosFlags head, retainFlag head, topic, some identified.1, identified.2, valid,
        by simp [zero], fun _ => zero⟩
  else none

/-- A packet decodes if it is a PUBLISH and its remaining length is that of its
body. -/
def decode : List UInt8 → Option PublishPacket
  | [] => none
  | head :: bytes =>
    if head >>> 4 = 3 then do
      let (length, body) ← decodeLength 4 bytes
      if length = body.length then
        let (topic, rest) ← decodeString body
        decodeBody head topic rest
      else none
    else none

/-- The bytes are a PUBLISH with such contents, QoS and RETAIN flag. -/
def Carries (bytes topic payload : List UInt8) (qos : UInt8) (retain : Bool) : Prop :=
  ∃ m, decode bytes = some m ∧ m.topic = topic ∧ m.payload = payload ∧ m.qos = qos ∧ m.retain = retain

variable {head head' : UInt8} {bytes topic rest : List UInt8} {m : PublishPacket}

/-- The bytes behind the first are read the same way under any first byte. -/
theorem decode_cons (decoded : decode (head :: bytes) = some m) : head >>> 4 = 3 ∧ ∃ topic rest,
    decodeBody head topic rest = some m ∧
      ∀ head' : UInt8, head' >>> 4 = 3 → decode (head' :: bytes) = decodeBody head' topic rest := by
  rw [decode] at decoded
  by_cases type : head >>> 4 = 3
  · rw [if_pos type] at decoded
    obtain ⟨⟨length, body⟩, sized, decoded⟩ := Option.bind_eq_some_iff.mp decoded
    dsimp only at decoded
    by_cases whole : length = body.length
    · rw [if_pos whole] at decoded
      obtain ⟨⟨topic, rest⟩, split, decoded⟩ := Option.bind_eq_some_iff.mp decoded
      refine ⟨type, topic, rest, decoded, fun head' type' => ?_⟩
      simp [decode, type', sized, whole, split]
    · rw [if_neg whole] at decoded
      cases decoded
  · rw [if_neg type] at decoded
    cases decoded

theorem decodeBody_some (decoded : decodeBody head topic rest = some m) :
    m.dup = dupFlag head ∧ m.qos = qosFlags head ∧ m.retain = retainFlag head ∧ m.topic = topic ∧
      (m.qos = 0 ∧ m.payload = rest ∨ m.qos ≠ 0 ∧ ∃ id, decodeId rest = some (id, m.payload)) := by
  unfold decodeBody at decoded
  split at decoded
  · rename_i zero
    split at decoded
    · cases decoded
    · rename_i original
      cases decoded
      exact ⟨by simpa using original, zero.symm, rfl, rfl, .inl ⟨rfl, rfl⟩⟩
  · rename_i zero
    split at decoded
    · obtain ⟨⟨id, payload⟩, identified, rfl⟩ := Option.map_eq_some_iff.mp decoded
      exact ⟨rfl, rfl, rfl, rfl, .inr ⟨zero, id, identified⟩⟩
    · cases decoded

/-- A packet of a QoS has its message under a first byte of the same type and
DUP flag with another QoS exactly if both have an identifier or neither. -/
theorem carries_iff (decoded : decode (head :: bytes) = some m) (type : head' >>> 4 = 3)
    (dup : dupFlag head' = dupFlag head) (lower : qosFlags head' ≤ m.qos) {qos : UInt8} {retain : Bool} :
    Carries (head' :: bytes) m.topic m.payload qos retain ↔
      (m.qos = 0 ∨ qosFlags head' ≠ 0) ∧ qosFlags head' = qos ∧ retainFlag head' = retain := by
  obtain ⟨-, topic, rest, body, others⟩ := decode_cons decoded
  obtain ⟨was_dup, was_qos, -, rfl, contents⟩ := decodeBody_some body
  unfold Carries
  rw [others head' type]
  constructor
  · rintro ⟨m', body', -, payload, rfl, rfl⟩
    obtain ⟨-, is_qos, is_retain, -, contents'⟩ := decodeBody_some body'
    refine ⟨?_, is_qos.symm, is_retain.symm⟩
    by_contra differs
    push Not at differs
    -- then the identifier is read as part of the payload
    rcases contents with ⟨zero, -⟩ | ⟨-, id, identified⟩
    · exact differs.1 zero
    · rcases contents' with ⟨-, all⟩ | ⟨some_qos, -⟩
      · have longer := decodeId_length identified
        rw [← payload, all] at longer
        omega
      · exact some_qos (is_qos.trans differs.2)
  · rintro ⟨same_layout, rfl, rfl⟩
    unfold decodeBody
    by_cases zero : qosFlags head' = 0
    · have original : m.qos = 0 := same_layout.resolve_right (absurd zero)
      have not_dup : dupFlag head' = false := by
        rw [dup, ← was_dup]
        by_contra dup
        exact m.original (by simpa using dup) original
      rcases contents with ⟨-, all⟩ | ⟨some_qos, -⟩
      · simp [zero, not_dup, all]
      · exact absurd original some_qos
    · have valid : qosFlags head' ≤ 2 := UInt8.le_trans lower m.qos_le
      rcases contents with ⟨none, -⟩ | ⟨-, id, identified⟩
      · rw [none] at lower
        exact absurd (UInt8.le_antisymm lower (UInt8.zero_le)) zero
      · simp [zero, valid, identified]

/-! ### The payload is part of the packet -/

theorem decodeLength_shorter {turns length : Nat} (decoded : decodeLength turns bytes = some (length, rest)) :
    rest.length < bytes.length := by
  induction turns generalizing bytes length with
  | zero => cases decoded
  | succ turns ih =>
    cases bytes with
    | nil => cases decoded
    | cons byte bytes =>
      rw [decodeLength] at decoded
      split at decoded
      · cases decoded
        exact Nat.lt_succ_self _
      · obtain ⟨more, shorter, same⟩ := Option.map_eq_some_iff.mp decoded
        cases same
        exact (ih shorter).trans (Nat.lt_succ_self _)

theorem decodeString_shorter (decoded : decodeString bytes = some (topic, rest)) :
    rest.length < bytes.length := by
  unfold decodeString at decoded
  split at decoded
  · split at decoded
    · cases decoded
      simp only [List.length_drop, List.length_cons]
      omega
    · cases decoded
  · cases decoded

theorem payload_shorter (decoded : decode bytes = some m) : m.payload.length < bytes.length := by
  cases bytes with
  | nil => cases decoded
  | cons head bytes =>
    rw [decode] at decoded
    split at decoded
    · obtain ⟨⟨length, body⟩, sized, decoded⟩ := Option.bind_eq_some_iff.mp decoded
      dsimp only at decoded
      split at decoded
      · obtain ⟨⟨topic, rest⟩, named, decoded⟩ := Option.bind_eq_some_iff.mp decoded
        dsimp only at decoded
        have held : m.payload.length ≤ rest.length := by
          obtain ⟨-, -, -, -, ⟨-, same⟩ | ⟨-, id, identified⟩⟩ := decodeBody_some decoded
          · exact same ▸ le_rfl
          · have longer := decodeId_length identified
            omega
        have first := decodeLength_shorter sized
        have second := decodeString_shorter named
        rw [List.length_cons]
        omega
      · cases decoded
    · cases decoded

end MqttBroker.Protocol
