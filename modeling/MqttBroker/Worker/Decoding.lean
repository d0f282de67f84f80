import MqttBroker.Protocol.ConnectPacket
import MqttBroker.Worker.Calls

/-! The CONNECT of a connection, read off the buffer: `connect_mqtt` inverts
the encoding of every well-formed packet. -/
namespace MqttBroker.Decoding
open Logic Protocol Worker

variable {w : World} {buf bytes rest : List UInt8} {byte high low : UInt8} {pos : Nat}

/-- The buffer has these bytes from a position on. -/
def Holds (buf : List UInt8) (pos : Nat) (bytes : List UInt8) : Prop :=
  ∃ front back, buf = front ++ (bytes ++ back) ∧ front.length = pos

theorem Holds.left (holds : Holds buf pos (bytes ++ rest)) : Holds buf pos bytes := by
  obtain ⟨front, back, rfl, rfl⟩ := holds
  exact ⟨front, rest ++ back, by rw [List.append_assoc], rfl⟩

theorem Holds.right (holds : Holds buf pos (bytes ++ rest)) : Holds buf (pos + bytes.length) rest := by
  obtain ⟨front, back, rfl, rfl⟩ := holds
  exact ⟨front ++ bytes, back, by simp, List.length_append⟩

theorem Holds.tail (holds : Holds buf pos (byte :: rest)) : Holds buf (pos + 1) rest := by
  have split : Holds buf pos ([byte] ++ rest) := holds
  exact split.right

theorem Holds.inside (holds : Holds buf pos bytes) : pos + bytes.length ≤ buf.length := by
  obtain ⟨front, back, rfl, rfl⟩ := holds
  simp only [List.length_append]
  omega

theorem byteAt_holds (holds : Holds w.buf pos (byte :: rest)) : byteAt pos w = .ok (byte, w) := by
  have inside := holds.inside
  rw [List.length_cons] at inside
  rw [byteAt_eq (by omega)]
  obtain ⟨front, back, same, rfl⟩ := holds
  simp [same, List.getD_eq_getElem?_getD]

theorem ntohsAt_holds (holds : Holds w.buf pos (high :: low :: rest)) :
    ntohsAt pos w = .ok ((high.toUInt16 <<< 8) ||| low.toUInt16, w) := by
  rw [ntohsAt, bind_of_ok (byteAt_holds holds), bind_of_ok (byteAt_holds holds.tail)]
  rfl

theorem rangeAt_holds (holds : Holds w.buf pos (bytes ++ rest)) :
    rangeAt pos bytes.length w = .ok (bytes, w) := by
  have inside := holds.left.inside
  change (if pos + bytes.length ≤ w.buf.length then pure ((w.buf.drop pos).take bytes.length)
    else fault .outOfBounds : Worker _) w = _
  rw [if_pos inside]
  obtain ⟨front, back, same, rfl⟩ := holds
  rw [same, List.drop_left, List.append_assoc, List.take_left]
  rfl

theorem matchesAt_holds (holds : Holds w.buf pos bytes) : matchesAt pos bytes w = .ok (true, w) := by
  induction bytes generalizing pos with
  | nil => rfl
  | cons byte rest ih =>
    rw [matchesAt, bind_of_ok (byteAt_holds holds), if_neg (not_not_intro rfl)]
    exact ih holds.tail

/-! ### Strings with their length in front -/

theorem Holds.text (holds : Holds buf pos (field bytes ++ rest)) : Holds buf (pos + 2) (bytes ++ rest) := by
  obtain ⟨front, back, rfl, rfl⟩ := holds
  exact ⟨front ++ (field bytes).take 2, back, by simp [field], by simp [field]⟩

theorem Holds.behind (holds : Holds buf pos (field bytes ++ rest)) :
    Holds buf (pos + 2 + bytes.length) rest :=
  holds.text.right

theorem Holds.short (holds : Holds buf pos (field bytes ++ rest)) (sized : buf.length = buffSize) :
    bytes.length < 65536 := by
  have inside := holds.text.left.inside
  have small : buffSize < 65536 := by decide
  omega

theorem ntohsAt_field (holds : Holds w.buf pos (field bytes ++ rest)) (short : bytes.length < 65536) :
    ntohsAt pos w = .ok (.ofNat bytes.length, w) := by
  rw [← field_word short]
  exact ntohsAt_holds holds

theorem word_length (short : bytes.length < 65536) : (UInt16.ofNat bytes.length).toNat = bytes.length := by
  rw [UInt16.toNat_ofNat']
  exact Nat.mod_eq_of_lt short

theorem vectorAt_holds (holds : Holds w.buf pos (bytes ++ rest)) (heap : w.env.heap = []) :
    vectorAt pos bytes.length w = .ok (⟨bytes, bytes.length⟩, w) := by
  unfold vectorAt
  by_cases empty : bytes = []
  · subst empty
    rfl
  · rw [if_neg (by simpa using empty)]
    have unchanged : { w with env := { w.env with heap := [] } } = w := by rw [← heap]
    have allocated : onHeap Heap.alloc w = .ok (true, w) := by
      change Except.ok (w.env.heap.alloc.1, { w with env := { w.env with heap := w.env.heap.alloc.2 } }) = _
      rw [heap, Heap.alloc_nil, unchanged]
    rw [bind_of_ok allocated, if_pos rfl, bind_of_ok (rangeAt_holds holds)]
    rfl

/-! ### The fields of a CONNECT -/

/-- What is stored of a will. -/
def WillFields.stored (will : WillFields) : Will where
  presenceFlag := true
  retain := will.retain
  topic := ⟨will.topic, will.topic.length⟩
  msg := ⟨will.msg, will.msg.length⟩
  qos := .ofNat will.qos

/-- The answer of `check_password` for the credentials of a CONNECT, `true`
where there are none. -/
def checked (w : World) (packet : ConnectPacket) : Outcome (Bool × Heap) :=
  match packet.credentials with
  | none => .ok (true, [])
  | some (username, password) =>
    UserCreds.checkPassword w.userCred w.env.digest username (password.getD []) []

theorem qos_clamped (qos : Fin 3) :
    (if UInt8.ofNat qos > 2 then 2 else UInt8.ofNat qos) = UInt8.ofNat qos := by
  revert qos
  decide

theorem willOfFlags_some (clean : Bool) (qos : Fin 3) (retain username password : Bool) :
    willOfFlags (flagByte clean (some (qos, retain)) username password) =
      { presenceFlag := true, retain := retain, qos := .ofNat qos } := by
  have present := (flagByte_will clean (some (qos, retain)) username password).mpr rfl
  rw [willOfFlags, if_pos present, flagByte_qos]
  dsimp only
  rw [qos_clamped, Will.mk.injEq]
  refine ⟨rfl, ?_, rfl, rfl, rfl⟩
  rw [Bool.eq_iff_iff, decide_eq_true_iff]
  exact flagByte_retain clean username password qos retain

theorem willOfFlags_none (clean username password : Bool) :
    willOfFlags (flagByte clean none username password) = {} := by
  have absent := mt (flagByte_will clean none username password).mp Bool.false_ne_true
  rw [willOfFlags, if_neg absent]

theorem readWill_holds (will : WillFields)
    (holds : Holds w.buf pos (field will.topic ++ (field will.msg ++ rest)))
    (sized : w.buf.length = buffSize) (heap : w.env.heap = []) :
    readWill pos { presenceFlag := true, retain := will.retain, qos := .ofNat will.qos } w =
      .ok (some (WillFields.stored will, pos + (field will.topic ++ field will.msg).length), w) := by
  have topic := word_length (holds.short sized)
  have msg := word_length (holds.behind.short sized)
  have whole (bytes : List UInt8) : ¬ Myvector.size ⟨bytes, bytes.length⟩ ≠ bytes.length :=
    not_not_intro rfl
  rw [readWill, bind_of_ok (ntohsAt_field holds (holds.short sized))]
  dsimp only
  rw [topic, bind_of_ok (vectorAt_holds holds.text heap), if_neg (whole _),
    bind_of_ok (ntohsAt_field holds.behind (holds.behind.short sized)), msg,
    bind_of_ok (vectorAt_holds holds.behind.text heap), if_neg (whole _),
    List.length_append, length_field, length_field]
  have place : pos + 2 + will.topic.length + 2 + will.msg.length =
      pos + (2 + will.topic.length + (2 + will.msg.length)) := by omega
  rw [place]
  rfl

/-- Where the check of the credentials leaves a CONNECT. -/
def answered (w : World) (packet : ConnectPacket) : Except Fault (Bool × World) :=
  (checked w packet).map fun answer => (answer.1, { w with env := { w.env with heap := answer.2 } })

theorem checkPasswordAt_holds {username pass : List UInt8} (holds : Holds w.buf pos (pass ++ rest))
    (heap : w.env.heap = []) :
    checkPasswordAt username pos pass.length w =
      (UserCreds.checkPassword w.userCred w.env.digest username pass []).map fun answer =>
        (answer.1, { w with env := { w.env with heap := answer.2 } }) := by
  change ((if w.env.heap.alloc.1 then rangeAt pos pass.length else pure (List.replicate pass.length 0)) >>=
    fun pass => check (UserCreds.checkPassword w.userCred w.env.digest username pass w.env.heap) >>=
      fun checked => onHeap fun _ => checked : Worker Bool) w = _
  rw [heap, Heap.alloc_nil, if_pos rfl, bind_of_ok (rangeAt_holds holds)]
  cases UserCreds.checkPassword w.userCred w.env.digest username pass [] <;> rfl

theorem readCredentials_holds {packet : ConnectPacket} {username : List UInt8}
    {password : Option (List UInt8)} (named : packet.credentials = some (username, password))
    (holds : Holds w.buf pos packet.credentialsPayload) (sized : w.buf.length = buffSize)
    (heap : w.env.heap = []) :
    readCredentials pos password.isSome w = answered w packet := by
  rw [ConnectPacket.credentialsPayload, named] at holds
  rw [answered, checked, named]
  cases password with
  | none =>
    replace holds : Holds w.buf pos (field username ++ ([] ++ [])) := by simpa using holds
    rw [readCredentials, bind_of_ok (ntohsAt_field holds (holds.short sized)), word_length (holds.short sized),
      bind_of_ok (rangeAt_holds holds.text)]
    exact checkPasswordAt_holds holds.behind heap
  | some password =>
    replace holds : Holds w.buf pos (field username ++ (field password ++ [])) := by simpa using holds
    rw [readCredentials, bind_of_ok (ntohsAt_field holds (holds.short sized)), word_length (holds.short sized),
      bind_of_ok (rangeAt_holds holds.text)]
    dsimp only
    rw [Option.isSome_some, if_pos rfl, bind_of_ok (ntohsAt_field holds.behind (holds.behind.short sized)),
      word_length (holds.behind.short sized)]
    exact checkPasswordAt_holds holds.behind.text heap

/-- The will `connect_mqtt` fills in. -/
def will (packet : ConnectPacket) : Will := (packet.will.map WillFields.stored).getD {}

/-- What `connect_mqtt` answers for an answer of `check_password`. -/
def reply (packet : ConnectPacket) (checked : Bool) : MqttConnReturn × Will :=
  if checked then (if packet.clean then .cleanSession else .uncleanSession, will packet)
  else (.disconnect, {})

theorem readOptions_holds (packet : ConnectPacket)
    (holds : Holds w.buf pos (packet.willPayload ++ packet.credentialsPayload))
    (sized : w.buf.length = buffSize) (heap : w.env.heap = []) :
    readOptions pos packet.flags (willOfFlags packet.flags) w =
      (answered w packet).map fun answer => (reply packet answer.1, answer.2) := by
  have options : (if (willOfFlags packet.flags).presenceFlag then
      readWill pos (willOfFlags packet.flags) else pure (some (willOfFlags packet.flags, pos))) w =
        .ok (some (will packet, pos + packet.willPayload.length), w) := by
    rw [will, ConnectPacket.flags, ConnectPacket.willPayload]
    rw [ConnectPacket.willPayload] at holds
    cases given : packet.will with
    | none =>
      rw [Option.map_none, willOfFlags_none]
      rfl
    | some will =>
      rw [given, List.append_assoc] at holds
      rw [Option.map_some, willOfFlags_some, if_pos rfl]
      exact readWill_holds will holds sized heap
  have credentials : (if packet.flags &&& 0x80 ≠ 0 then
      readCredentials (pos + packet.willPayload.length) (packet.flags &&& 0x40 ≠ 0) else pure true) w =
        answered w packet := by
    cases given : packet.credentials with
    | none =>
      have absent := mt packet.flags_username.mp (by simp [given])
      have unchanged : { w with env := { w.env with heap := [] } } = w := by rw [← heap]
      rw [if_neg absent, answered, checked, given]
      exact congrArg (fun w => Except.ok (true, w)) unchanged.symm
    | some credentials =>
      obtain ⟨username, password⟩ := credentials
      have present := packet.flags_username.mpr (by simp [given])
      have protection : decide (packet.flags &&& 0x40 ≠ 0) = password.isSome := by
        rw [Bool.eq_iff_iff, decide_eq_true_iff, packet.flags_password, given]
        rfl
      rw [if_pos present, protection]
      exact readCredentials_holds given holds.right sized heap
  rw [readOptions, bind_of_ok options]
  dsimp only
  simp only [bind, StateT.bind, Except.bind, credentials]
  cases answered w packet with
  | error fault => rfl
  | ok answer =>
    obtain ⟨accepted, w'⟩ := answer
    cases accepted with
    | false => rfl
    | true =>
      have flag : (if packet.flags &&& 0x02 ≠ 0 then MqttConnReturn.cleanSession else .uncleanSession) =
          if packet.clean then .cleanSession else .uncleanSession := if_congr packet.flags_clean rfl rfl
      rw [flag]
      rfl

/-- `connect_mqtt` on the body of any well-formed CONNECT that is in the buffer,
with memory for what it allocates. -/
theorem connect_decoded (sock : Fin 64) (packet : ConnectPacket) (curPos : Nat) (w : World)
    (sized : w.buf.length = buffSize) (first : Holds w.buf 0 [0x10])
    (placed : Holds w.buf curPos packet.body) (heap : w.env.heap = []) :
    connectMqtt sock curPos w = (checked w packet).map fun answer =>
      (reply packet answer.1, { w.setSock sock ({ · with clientid := packet.clientid }) with
        env := { w.env with heap := answer.2 } }) := by
  have level : Holds w.buf (curPos + 6) (4 :: packet.flags :: packet.keepAlive.1 :: packet.keepAlive.2 ::
      (field packet.clientid ++ (packet.willPayload ++ packet.credentialsPayload))) := placed.behind
  have flags := level.tail
  have keepAlive := flags.tail
  have clientid := keepAlive.tail.tail
  have named := packet.named
  have short := packet.short
  have number := word_length (clientid.short sized)
  have valid : ¬ (UInt16.ofNat packet.clientid.length < 1 ∨ UInt16.ofNat packet.clientid.length > 23) := by
    simp only [UInt16.lt_iff_toNat_lt, gt_iff_lt, number, UInt16.toNat_ofNat]
    omega
  have willed : ¬ (!(willOfFlags packet.flags).presenceFlag && decide (packet.flags &&& 0x38 ≠ 0)) = true := by
    cases given : packet.will with
    | none => simp [packet.flags_willBits given]
    | some will =>
      have present : packet.flags &&& 0x04 ≠ 0 := by
        rw [ConnectPacket.flags, flagByte_will, given]
        rfl
      simp [willOfFlags, present]
  have options := readOptions_holds (w := w.setSock sock ({ · with clientid := packet.clientid })) packet
    clientid.behind sized heap
  rw [connectMqtt, bind_of_ok (byteAt_holds first)]
  dsimp only
  rw [if_neg (by decide), bind_of_ok (ntohsAt_field placed (placed.short sized)), if_neg (by decide),
    bind_of_ok (matchesAt_holds placed.text.left), if_neg (by decide), bind_of_ok (byteAt_holds level),
    if_neg (not_not_intro rfl), bind_of_ok (byteAt_holds flags),
    if_neg (not_not_intro packet.flags_reserved), if_neg willed, bind_of_ok (ntohsAt_holds keepAlive),
    bind_of_ok (ntohsAt_field clientid (clientid.short sized)), if_neg valid, number,
    bind_of_ok (rangeAt_holds clientid.text)]
  refine options.trans ?_
  change Except.map _ (Except.map _ (checked w packet)) = _
  cases checked w packet <;> rfl

/-- A CONNECT with a will, a user name and a password. -/
def willing : ConnectPacket where
  clientid := [97]
  clean := false
  keepAlive := (0, 60)
  will := some ⟨[116], [33], 1, true⟩
  credentials := some ([117], some [112])
  named := by decide
  short := by decide

/-- The packet is in the buffer, behind a fixed header of two bytes, and its
user is stored, with a digest that leaves its input as it is. -/
def holding (body : List UInt8) : World :=
  { World.initial .clean with
    buf := [0x10, .ofNat body.length] ++ (body ++ List.replicate (buffSize - 2 - body.length) 0)
    userCred := { buckets := [[⟨[117], ⟨true, [7], [112, 7]⟩⟩]], count := 1 }
    env := { digest := some } }

theorem holding_sized {body : List UInt8} (fits : 2 + body.length ≤ buffSize) :
    (holding body).buf.length = buffSize := by
  simp only [holding, List.length_append, List.length_cons, List.length_nil, List.length_replicate]
  omega

theorem willing_decoded : checked (holding willing.body) willing = .ok (true, []) ∧
    connectMqtt 0 2 (holding willing.body) = (checked (holding willing.body) willing).map fun answer =>
      (reply willing answer.1, { (holding willing.body).setSock 0 ({ · with clientid := [97] }) with
        env := { digest := some, heap := answer.2 } }) :=
  ⟨rfl, connect_decoded 0 willing 2 (holding willing.body) (holding_sized (by decide)) ⟨[], _, rfl, rfl⟩
    ⟨_, _, rfl, rfl⟩ rfl⟩

end MqttBroker.Decoding
