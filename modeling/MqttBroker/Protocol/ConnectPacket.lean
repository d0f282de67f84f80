import Mathlib.Data.Fintype.Option
import Mathlib.Data.Fintype.Prod
import MqttBroker.Logic.Bytes

/-! The CONNECT packet of MQTT 3.1.1: what it says, and the bytes behind its
fixed header. -/
namespace MqttBroker.Protocol

/-- A string with its length in front. -/
def field (bytes : List UInt8) : List UInt8 :=
  .ofNat (bytes.length / 256) :: .ofNat bytes.length :: bytes

theorem length_field (bytes : List UInt8) : (field bytes).length = 2 + bytes.length := by
  simp only [field, List.length_cons]
  omega

/-- The length in front of a string is its length. -/
theorem field_word {bytes : List UInt8} (short : bytes.length < 65536) :
    ((UInt8.ofNat (bytes.length / 256)).toUInt16 <<< 8) ||| (UInt8.ofNat bytes.length).toUInt16 =
      .ofNat bytes.length := by
  rw [← UInt16.toNat_inj, Logic.word_toNat]
  simp only [UInt8.toNat_ofNat', UInt16.toNat_ofNat']
  omega

/-- The will of a CONNECT. -/
structure WillFields where
  topic : List UInt8
  msg : List UInt8
  qos : Fin 3
  retain : Bool

/-- A well-formed CONNECT of a client with an id of 1 to 23 bytes. There is a
password only with a user name. -/
structure ConnectPacket where
  clientid : List UInt8
  clean : Bool
  keepAlive : UInt8 × UInt8
  will : Option WillFields
  credentials : Option (List UInt8 × Option (List UInt8))
  named : 1 ≤ clientid.length
  short : clientid.length ≤ 23

/-- The flags of a will. -/
def willBits (qos : Fin 3) (retain : Bool) : UInt8 :=
  (0x04 : UInt8) ||| (UInt8.ofNat qos <<< 3) ||| (if retain then 0x20 else 0)

/-- The connect flags. -/
def flagByte (clean : Bool) (will : Option (Fin 3 × Bool)) (username password : Bool) : UInt8 :=
  (if clean then 0x02 else 0) ||| (will.elim 0 fun will => willBits will.1 will.2) |||
    (if username then 0x80 else 0) ||| (if password then 0x40 else 0)

section Flags
variable (clean : Bool) (will : Option (Fin 3 × Bool)) (username password : Bool)

theorem flagByte_reserved : flagByte clean will username password &&& 0x01 = 0 := by
  revert clean will username password
  decide

theorem flagByte_clean : flagByte clean will username password &&& 0x02 ≠ 0 ↔ clean = true := by
  revert clean will username password
  decide

theorem flagByte_will : flagByte clean will username password &&& 0x04 ≠ 0 ↔ will.isSome = true := by
  revert clean will username password
  decide

theorem flagByte_willBits (none : will = none) :
    flagByte clean will username password &&& 0x38 = 0 := by
  subst none
  revert clean username password
  decide

theorem flagByte_qos (qos : Fin 3) (retain : Bool) :
    (flagByte clean (some (qos, retain)) username password >>> 3) &&& 0x03 = .ofNat qos := by
  revert clean username password qos retain
  decide

theorem flagByte_retain (qos : Fin 3) (retain : Bool) :
    flagByte clean (some (qos, retain)) username password &&& 0x20 ≠ 0 ↔ retain = true := by
  revert clean username password qos retain
  decide

theorem flagByte_username :
    flagByte clean will username password &&& 0x80 ≠ 0 ↔ username = true := by
  revert clean will username password
  decide

theorem flagByte_password :
    flagByte clean will username password &&& 0x40 ≠ 0 ↔ password = true := by
  revert clean will username password
  decide

end Flags

namespace ConnectPacket

def flags (packet : ConnectPacket) : UInt8 :=
  flagByte packet.clean (packet.will.map fun will => (will.qos, will.retain))
    packet.credentials.isSome (packet.credentials.any fun credentials => credentials.2.isSome)

theorem flags_reserved (packet : ConnectPacket) : packet.flags &&& 0x01 = 0 :=
  flagByte_reserved ..

theorem flags_clean (packet : ConnectPacket) : packet.flags &&& 0x02 ≠ 0 ↔ packet.clean = true :=
  flagByte_clean ..

theorem flags_username (packet : ConnectPacket) :
    packet.flags &&& 0x80 ≠ 0 ↔ packet.credentials.isSome = true := flagByte_username ..

theorem flags_password (packet : ConnectPacket) : packet.flags &&& 0x40 ≠ 0 ↔
    packet.credentials.any (fun credentials => credentials.2.isSome) = true := flagByte_password ..

theorem flags_willBits {packet : ConnectPacket} (none : packet.will = none) :
    packet.flags &&& 0x38 = 0 :=
  flagByte_willBits _ _ _ _ (by rw [none]; rfl)

def willPayload (packet : ConnectPacket) : List UInt8 :=
  match packet.will with
  | none => []
  | some will => field will.topic ++ field will.msg

def credentialsPayload (packet : ConnectPacket) : List UInt8 :=
  match packet.credentials with
  | none => []
  | some (username, none) => field username
  | some (username, some password) => field username ++ field password

/-- The variable header and the payload. -/
def body (packet : ConnectPacket) : List UInt8 :=
  field [0x4D, 0x51, 0x54, 0x54] ++
    4 :: packet.flags :: packet.keepAlive.1 :: packet.keepAlive.2 ::
      (field packet.clientid ++ (packet.willPayload ++ packet.credentialsPayload))

end ConnectPacket
end MqttBroker.Protocol
