import MqttBroker.Protocol.Acknowledgements
import MqttBroker.Worker.Decoding
import MqttBroker.Worker.Framing

/-! The packet that a header was read for: where its body is in the buffer. -/
namespace MqttBroker.Reading
open Logic Protocol RemainingLength Worker Decoding

variable {w w₁ w' : World} {header : Header} {pos len : Nat}

/-- What a read puts to a position. -/
theorem connRead_ok {n : Nat} (ran : connRead pos len w = .ok (n, w')) :
    ∃ bytes, n = bytes.length ∧ bytes.length ≤ len ∧
      w'.buf = w.buf.take pos ++ bytes ++ w.buf.drop (pos + bytes.length) := by
  rw [connRead, get_bind_ok] at ran
  cases inbound : w.env.inbound with
  | nil =>
    rw [inbound] at ran
    obtain ⟨rfl, rfl⟩ := pure_ok.mp ran
    exact ⟨[], rfl, Nat.zero_le _, by simp⟩
  | cons chunk rest =>
    rw [inbound] at ran
    dsimp only at ran
    split at ran
    · exact absurd ran fault_ok
    · rw [set_bind_ok] at ran
      obtain ⟨rfl, rfl⟩ := pure_ok.mp ran
      refine ⟨chunk.take len, rfl, ?_, rfl⟩
      rw [List.length_take]
      exact Nat.min_le_left _ _

/-- A read leaves what is in front of its position. -/
theorem connRead_front {n : Nat} (inside : pos ≤ w.buf.length) (ran : connRead pos len w = .ok (n, w')) :
    w'.buf.take pos = w.buf.take pos ∧ pos + n ≤ w'.buf.length := by
  obtain ⟨bytes, rfl, -, buf⟩ := connRead_ok ran
  have front : (w.buf.take pos).length = pos := by rw [List.length_take, Nat.min_eq_left inside]
  rw [buf]
  constructor
  · rw [List.append_assoc, List.take_left' front]
  · simp only [List.length_append, front]
    omega

/-- One byte that is read and looked at. -/
theorem connRead_byte {byte : UInt8} {n : Nat} (ran : connRead pos 1 w = .ok (n, w₁)) (some : n ≠ 0)
    (looked : byteAt pos w₁ = .ok (byte, w')) :
    pos ≤ w.buf.length ∧ w' = w₁ ∧ w₁.buf.take (pos + 1) = w.buf.take pos ++ [byte] := by
  obtain ⟨bytes, rfl, short, buf⟩ := connRead_ok ran
  obtain ⟨only, rfl⟩ := List.length_eq_one_iff.mp (Nat.le_antisymm short (Nat.pos_of_ne_zero some))
  have within : pos < w₁.buf.length := by
    rw [byteAt, get_bind_ok] at looked
    split at looked
    · assumption
    · exact absurd looked fault_ok
  have inside : pos ≤ w.buf.length := by
    rw [buf] at within
    simp only [List.length_append, List.length_take, List.length_drop, List.length_singleton] at within
    omega
  have front : (w.buf.take pos).length = pos := by rw [List.length_take, Nat.min_eq_left inside]
  obtain ⟨same, rfl⟩ := byteAt_ok looked
  have read : byte = only := by
    rw [same, buf, List.append_assoc, List.getD_eq_getElem?_getD, List.getElem?_append_right front.le, front,
      Nat.sub_self]
    rfl
  refine ⟨inside, rfl, ?_⟩
  rw [buf, read, List.take_left' (by rw [List.length_append, front, List.length_singleton])]

/-- The length bytes a header was read from. -/
structure Measured (pos : Nat) (packetLength multiplier : UInt16) (additional : UInt8) (header : Header)
    (length : List UInt8) : Prop where
  whole : Whole length
  curPos : header.curPos = pos + length.length
  counted : header.additionalPacketLen.toNat ≤ additional.toNat + length.length
  single : ∀ byte, length = [byte] →
    header.packetLength = packetLength + (byte &&& 127).toUInt16 * multiplier ∧
      header.additionalPacketLen = additional + 1

theorem readLength_measured {fuel : Nat} {packetLength multiplier : UInt16} {additional : UInt8}
    (ran : readLength fuel pos packetLength multiplier additional w = .ok (some header, w')) :
    pos ≤ w.buf.length ∧ ∃ length, Measured pos packetLength multiplier additional header length ∧
      w'.buf.take header.curPos = w.buf.take pos ++ length := by
  induction fuel generalizing pos packetLength multiplier additional w with
  | zero => exact absurd ran fault_ok
  | succ fuel ih =>
    obtain ⟨n, w₁, read, ran⟩ := bind_ok.mp ran
    split at ran
    · cases (pure_ok.mp ran).1
    · rename_i some
      obtain ⟨byte, w₂, looked, turns⟩ := bind_ok.mp ran
      obtain ⟨inside, rfl, front⟩ := connRead_byte read some looked
      refine ⟨inside, ?_⟩
      dsimp only at turns
      rw [if_neg (Framing.multiplier_small _)] at turns
      by_cases more : Continues byte
      · rw [if_pos (show byte &&& 128 ≠ 0 from more)] at turns
        obtain ⟨-, length, measured, buf⟩ := ih turns
        refine ⟨byte :: length, ⟨?_, ?_, ?_, ?_⟩, ?_⟩
        · rw [Whole, if_pos more]
          exact measured.whole
        · rw [measured.curPos, List.length_cons]
          omega
        · have counted := measured.counted
          rw [UInt8.toNat_add] at counted
          rw [List.length_cons]
          have one : (1 : UInt8).toNat = 1 := rfl
          have small := Nat.mod_le (additional.toNat + (1 : UInt8).toNat) (2 ^ 8)
          omega
        · intro other same
          obtain ⟨rfl, rfl⟩ := List.cons.inj same
          exact absurd measured.whole id
        · rw [buf, front, List.append_assoc, List.singleton_append]
      · rw [if_neg (show ¬ byte &&& 128 ≠ 0 from more)] at turns
        obtain ⟨same, rfl⟩ := pure_ok.mp turns
        obtain rfl := Option.some.inj same
        refine ⟨[byte], ⟨?_, rfl, ?_, ?_⟩, front⟩
        · rw [Whole, if_neg more]
        · have one : (1 : UInt8).toNat = 1 := rfl
          rw [UInt8.toNat_add, List.length_singleton, one]
          exact Nat.mod_le _ _
        · intro other same
          obtain rfl := List.singleton_inj.mp same
          exact ⟨rfl, rfl⟩

theorem readPayload_front {fuel left : Nat} {error : Bool} (inside : pos ≤ w.buf.length)
    (ran : readPayload fuel pos left w = .ok (error, w')) : w'.buf.take pos = w.buf.take pos := by
  induction fuel generalizing pos left w with
  | zero => rw [(pure_ok.mp ran).2]
  | succ fuel ih =>
    rw [readPayload] at ran
    split at ran
    · rw [(pure_ok.mp ran).2]
    · obtain ⟨n, w₁, read, ran⟩ := bind_ok.mp ran
      obtain ⟨front, within⟩ := connRead_front inside read
      split at ran
      · rw [(pure_ok.mp ran).2, front]
      · have kept := congrArg (List.take pos) (ih within ran)
        rwa [List.take_take, List.take_take, Nat.min_eq_left (Nat.le_add_right _ _), front] at kept

/-- A payload that is read without an error is there. -/
theorem readPayload_inside {fuel left : Nat} (inside : pos ≤ w.buf.length)
    (ran : readPayload fuel pos left w = .ok (false, w')) : pos + left ≤ w'.buf.length := by
  induction fuel generalizing pos left w with
  | zero =>
    obtain ⟨all, rfl⟩ := pure_ok.mp ran
    have none : left = 0 := by simpa using all.symm
    omega
  | succ fuel ih =>
    rw [readPayload] at ran
    split at ran
    · rw [(pure_ok.mp ran).2]
      omega
    · obtain ⟨n, w₁, read, ran⟩ := bind_ok.mp ran
      obtain ⟨bytes, count, few, -⟩ := connRead_ok read
      obtain ⟨-, within⟩ := connRead_front inside read
      split at ran
      · cases (pure_ok.mp ran).1
      · have rest := ih within ran
        omega

/-- The packet that was read is at the front of the buffer. -/
theorem readPacket_front (ran : readPacket w = .ok (some header, w')) :
    ∃ read head length, Measured 1 0 1 1 read length ∧
      read.packetLength.toNat + read.additionalPacketLen.toNat ≤ 1024 ∧
      header = { read with packetLength := read.packetLength + read.additionalPacketLen.toUInt16 } ∧
      w'.buf = head :: (length ++ w'.buf.drop read.curPos) ∧
      read.curPos + read.packetLength.toNat ≤ w'.buf.length := by
  obtain ⟨n, w₁, first, ran⟩ := bind_ok.mp ran
  split at ran
  · cases (pure_ok.mp ran).1
  obtain ⟨measured, w₂, lengths, ran⟩ := bind_ok.mp ran
  cases measured with
  | none => cases (pure_ok.mp ran).1
  | some read =>
    dsimp only at ran
    split at ran
    · cases (pure_ok.mp ran).1
    rename_i fits
    obtain ⟨error, w₃, payload, ran⟩ := bind_ok.mp ran
    split at ran
    · cases (pure_ok.mp ran).1
    rename_i complete
    obtain ⟨same, rfl⟩ := pure_ok.mp ran
    obtain rfl := Bool.eq_false_iff.mpr complete
    obtain ⟨within, length, measured, front⟩ := readLength_measured lengths
    have one : (w₁.buf.take 1).length = 1 := by rw [List.length_take, Nat.min_eq_left within]
    obtain ⟨head, byte⟩ := List.length_eq_one_iff.mp one
    rw [byte] at front
    have inside : read.curPos ≤ w₂.buf.length := by
      have sizes := congrArg List.length front
      rw [List.length_take, List.length_append, List.length_singleton, ← measured.curPos] at sizes
      omega
    have kept := (readPayload_front inside payload).trans front
    refine ⟨read, head, length, measured, Nat.le_of_not_lt fits, Option.some.inj same, ?_,
      readPayload_inside inside payload⟩
    rw [← List.cons_append, ← List.singleton_append, ← kept, List.take_append_drop]

/-- The buffer has the packet a header was read for. -/
structure ReadAs (buf : List UInt8) (header : Header) (packet : List UInt8) : Prop where
  taken : packet = buf.take header.packetLength.toNat
  body : Holds buf header.curPos (bodyOf packet)
  short : buf.getD 1 0 = 2 → header.packetLength = 4 ∧ header.curPos = 2

theorem ReadAs.first {head : UInt8} {buf packet : List UInt8} (read : ReadAs buf header packet)
    (first : head ∈ packet.head?) : head = buf.getD 0 0 := by
  have taken := read.taken
  subst packet
  cases buf with
  | nil => simp at first
  | cons byte rest =>
    cases at_length : header.packetLength.toNat with
    | zero => simp [at_length] at first
    | succ n =>
      rw [at_length, List.take_succ_cons] at first
      exact (Option.some.inj first).symm

theorem readAs_of {head : UInt8} {length rest : List UInt8} (whole : Whole length)
    (curPos : header.curPos = 1 + length.length)
    (single : ∀ byte, length = [byte] → header.packetLength = (byte &&& 127).toUInt16 + 2) :
    ReadAs (head :: (length ++ rest)) header
      ((head :: (length ++ rest)).take header.packetLength.toNat) := by
  refine ⟨rfl, ?_, fun two => ?_⟩
  · generalize header.packetLength.toNat = n
    have split : head :: (length ++ rest) = (head :: length) ++ rest := rfl
    cases n with
    | zero => exact ⟨head :: length, rest, split, by rw [curPos, List.length_cons, Nat.add_comm]⟩
    | succ n =>
      rw [List.take_succ_cons, bodyOf_take head whole]
      refine ⟨head :: length, rest.drop (n - length.length), ?_, ?_⟩
      · rw [List.take_append_drop, split]
      · rw [curPos, List.length_cons, Nat.add_comm]
  · cases length with
    | nil => exact absurd whole id
    | cons byte more =>
      obtain rfl : byte = 2 := two
      have last : ¬ Continues 2 := by decide
      rw [Whole, if_neg last] at whole
      subst whole
      exact ⟨single 2 rfl, curPos⟩

theorem readPacket_readAs (ran : readPacket w = .ok (some header, w')) :
    ReadAs w'.buf header (w'.buf.take header.packetLength.toNat) := by
  obtain ⟨read, head, length, measured, -, rfl, split, -⟩ := readPacket_front ran
  rw [split]
  refine readAs_of measured.whole measured.curPos fun byte same => ?_
  obtain ⟨number, more⟩ := measured.single byte same
  dsimp only
  rw [number, more, UInt16.zero_add, UInt16.mul_one]
  rfl

/-! ### The fields of a PUBLISH -/

section Fields
variable {low high : UInt8} {more packet topic rest : List UInt8}

theorem packetIdAt_holds (holds : Holds w.buf pos (low :: high :: more)) :
    packetIdAt pos w = .ok ((high.toUInt16 <<< 8) ||| low.toUInt16, w) := by
  rw [packetIdAt, bind_of_ok (byteAt_holds holds), bind_of_ok (byteAt_holds holds.tail)]
  rfl

/-- The topic is read as it is in the packet. -/
theorem ReadAs.named (read : ReadAs w.buf header packet)
    (split : decodeString (bodyOf packet) = some (topic, rest)) :
    ∃ topicLen, ntohsAt header.curPos w = .ok (topicLen, w) ∧
      rangeAt (header.curPos + 2) topicLen.toNat w = .ok (topic, w) ∧
      Holds w.buf (header.curPos + 2 + topicLen.toNat) rest := by
  have holds := read.body
  unfold decodeString at split
  split at split
  · rename_i high low behind body
    split at split
    · rename_i long
      obtain ⟨rfl, rfl⟩ := Prod.mk.inj (Option.some.inj split)
      rw [body] at holds
      have length := ntohsAt_holds holds
      have whole : high :: low :: behind = [high, low] ++ (behind.take (256 * high.toNat + low.toNat) ++
          behind.drop (256 * high.toNat + low.toNat)) := by
        rw [List.take_append_drop]
        rfl
      rw [whole] at holds
      have word := word_toNat high low
      have size : (behind.take (256 * high.toNat + low.toNat)).length = 256 * high.toNat + low.toNat := by
        rw [List.length_take, Nat.min_eq_left long]
      have named := rangeAt_holds holds.right
      have placed := holds.right.right
      rw [size] at named placed
      exact ⟨_, length, word.symm ▸ named, word.symm ▸ placed⟩
    · cases split
  · cases split

/-- So is an identifier. -/
theorem packetIdAt_idAt {id : List UInt8} (holds : Holds w.buf pos rest) (found : idAt rest = some id) :
    ∃ x, packetIdAt pos w = .ok (x, w) ∧ idBytes x = id := by
  obtain ⟨first, second, more, rfl, rfl⟩ := idAt_some found
  exact ⟨_, packetIdAt_holds holds, idBytes_word first second⟩

end Fields

end MqttBroker.Reading
