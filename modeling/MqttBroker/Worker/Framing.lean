import Mathlib.Data.List.TakeWhile
import MqttBroker.Protocol.RemainingLength
import MqttBroker.Worker.Calls

/-! The packets of a byte stream: the loop over the remaining length, and the
packets that reading one after the other yields. The stream comes in chunks, and
an empty one ends it. -/
namespace MqttBroker.Framing
open Logic Worker RemainingLength

variable {w w₁ w₂ w' : World} {byte : UInt8} {stream bytes : List UInt8} {pos len : Nat}

/-- The bytes that arrive before the connection ends. -/
def arriving (inbound : List (List UInt8)) : List UInt8 := (inbound.takeWhile (· ≠ [])).flatten

/-- What reading bytes to a position of the buffer leaves. -/
structure Took (w : World) (pos : Nat) (bytes : List UInt8) (w' : World) : Prop where
  quiet : Quiet w w'
  buf : w'.buf = w.buf.take pos ++ bytes ++ w.buf.drop (pos + bytes.length)
  count : w.env.inbound.flatten.length = w'.env.inbound.flatten.length + bytes.length

theorem Took.nothing (w : World) (pos : Nat) : Took w pos [] w :=
  ⟨Quiet.refl w, by simp, rfl⟩

/-- What is read in two parts is read in one. -/
theorem Took.trans {first second : List UInt8} (sized : pos ≤ w.buf.length)
    (early : Took w pos first w₁) (late : Took w₁ (pos + first.length) second w₂) :
    Took w pos (first ++ second) w₂ := by
  refine ⟨early.quiet.trans late.quiet, ?_, ?_⟩
  · have front : pos + first.length = (w.buf.take pos ++ first).length := by
      rw [List.length_append, List.length_take, Nat.min_eq_left sized]
    rw [late.buf, early.buf, front, List.take_left, List.drop_length_add_append, List.drop_drop,
      ← front, List.length_append, ← Nat.add_assoc, List.append_assoc (w.buf.take pos)]
  · rw [early.count, late.count, List.length_append]
    omega

theorem Took.length (took : Took w pos bytes w') (inside : pos + bytes.length ≤ w.buf.length) :
    w'.buf.length = w.buf.length := by
  rw [took.buf]
  simp only [List.length_append, List.length_take, List.length_drop]
  omega

theorem arriving_cons {chunk : List UInt8} {rest : List (List UInt8)} :
    arriving (chunk :: rest) = if chunk = [] then [] else chunk ++ arriving rest := by
  by_cases empty : chunk = []
  · simp [arriving, empty]
  · simp [arriving, empty]

theorem connRead_cons (pos len : Nat) {chunk : List UInt8} {rest : List (List UInt8)}
    (held : w.env.inbound = chunk :: rest) (inside : pos + (chunk.take len).length ≤ buffSize) :
    connRead pos len w = .ok ((chunk.take len).length, { w with
      env := { w.env with inbound := if len < chunk.length then chunk.drop len :: rest else rest }
      buf := w.buf.take pos ++ chunk.take len ++ w.buf.drop (pos + (chunk.take len).length) }) := by
  simp only [connRead, bind, StateT.bind, get, getThe, MonadStateOf.get, StateT.get, pure, Except.pure,
    Except.bind, held]
  rw [if_neg (Nat.not_lt.mpr inside)]
  rfl

/-- A read while bytes arrive takes some of them, but no more than asked for, if
the buffer has room for these. -/
theorem connRead_chunk (pos len : Nat) (some : arriving w.env.inbound ≠ []) (asked : 0 < len) :
    ∃ bytes, bytes ≠ [] ∧ bytes.length ≤ len ∧ bytes <+: arriving w.env.inbound ∧
      (buffSize < pos + bytes.length → connRead pos len w = .error .outOfBounds) ∧
      (pos + bytes.length ≤ buffSize → ∃ w', connRead pos len w = .ok (bytes.length, w') ∧ Took w pos bytes w' ∧
        arriving w.env.inbound = bytes ++ arriving w'.env.inbound) := by
  cases held : w.env.inbound with
  | nil =>
    rw [held] at some
    exact absurd rfl some
  | cons chunk rest =>
    rw [held, arriving_cons] at some
    have filled : chunk ≠ [] := fun empty => some (if_pos empty)
    have short : (chunk.take len).length ≤ len := by simp
    refine ⟨chunk.take len, ?_, short, ?_, fun outside => ?_, fun inside => ?_⟩
    · intro empty
      rcases List.take_eq_nil_iff.mp empty with none | none
      · omega
      · exact filled none
    · rw [arriving_cons, if_neg filled]
      exact (List.take_prefix len chunk).trans (List.prefix_append chunk _)
    · simp only [connRead, bind, StateT.bind, get, getThe, MonadStateOf.get, StateT.get, pure, Except.pure,
        Except.bind, held]
      rw [if_pos outside]
      rfl
    · refine ⟨_, connRead_cons pos len held inside, ⟨⟨_, _, rfl⟩, rfl, ?_⟩, ?_⟩
      · rw [held]
        dsimp only
        split
        · simp only [List.flatten_cons, List.length_append, List.length_take, List.length_drop]
          omega
        · simp only [List.flatten_cons, List.length_append, List.length_take]
          omega
      · rw [arriving_cons, if_neg filled]
        dsimp only
        split
        · rename_i longer
          have left : chunk.drop len ≠ [] := by simpa using longer
          rw [arriving_cons, if_neg left, ← List.append_assoc, List.take_append_drop]
        · rename_i all
          rw [List.take_of_length_le (by omega)]

/-- A read for which the buffer has room. -/
theorem connRead_some (pos len : Nat) (some : arriving w.env.inbound ≠ []) (asked : 0 < len)
    (inside : pos + len ≤ buffSize) :
    ∃ bytes w', connRead pos len w = .ok (bytes.length, w') ∧ bytes ≠ [] ∧ bytes.length ≤ len ∧
      Took w pos bytes w' ∧ arriving w.env.inbound = bytes ++ arriving w'.env.inbound := by
  obtain ⟨bytes, filled, short, -, -, reads⟩ := connRead_chunk pos len some asked
  obtain ⟨w', ran, took, split⟩ := reads (by omega)
  exact ⟨bytes, w', ran, filled, short, took, split⟩

/-- A read of one byte takes the next one. -/
theorem connRead_one (arrives : arriving w.env.inbound = byte :: stream) (inside : pos < buffSize) :
    ∃ w', connRead pos 1 w = .ok (1, w') ∧ Took w pos [byte] w' ∧
      arriving w'.env.inbound = stream := by
  obtain ⟨bytes, w', ran, some, short, took, split⟩ :=
    connRead_some pos 1 (arrives ▸ List.cons_ne_nil byte stream) Nat.one_pos inside
  obtain ⟨first, rfl⟩ : ∃ first, bytes = [first] := by
    have one := List.length_pos_of_ne_nil some
    exact List.length_eq_one_iff.mp (by omega)
  rw [arrives] at split
  obtain ⟨rfl, same⟩ := List.cons.inj split
  exact ⟨w', ran, took, same.symm⟩

/-- A read when no byte arrives ends the connection. -/
theorem connRead_none (pos len : Nat) (none : arriving w.env.inbound = []) (inside : pos ≤ buffSize) :
    ∃ w', connRead pos len w = .ok (0, w') ∧ Took w pos [] w' := by
  cases held : w.env.inbound with
  | nil =>
    refine ⟨w, ?_, Took.nothing w pos⟩
    simp only [connRead, bind, StateT.bind, get, getThe, MonadStateOf.get, StateT.get, pure,
      Except.pure, Except.bind, held]
    rfl
  | cons chunk rest =>
    rw [held, arriving_cons] at none
    have empty : chunk = [] := by
      by_contra filled
      rw [if_neg filled] at none
      exact filled (List.append_eq_nil_iff.mp none).1
    subst empty
    refine ⟨_, (connRead_cons pos len held (by simpa using inside)).trans (by rw [List.take_nil]; rfl), ?_⟩
    exact ⟨⟨_, _, rfl⟩, by simp, by simp [held]⟩

/-- A read outside the buffer. -/
theorem connRead_outside (some : arriving w.env.inbound ≠ []) (outside : buffSize ≤ pos) :
    connRead pos 1 w = .error .outOfBounds := by
  obtain ⟨bytes, filled, -, -, fails, -⟩ := connRead_chunk pos 1 some Nat.one_pos
  have one := List.length_pos_of_ne_nil filled
  exact fails (by omega)

/-- A byte that has just been read. -/
theorem byteAt_took (took : Took w pos [byte] w') (inside : pos < w.buf.length) :
    byteAt pos w' = .ok (byte, w') := by
  have held : w'.buf.getD pos 0 = byte := by
    rw [took.buf, List.append_assoc, List.getD_eq_getElem?_getD, List.getElem?_append_right (by simp)]
    simp [Nat.min_eq_left (Nat.le_of_lt inside)]
  rw [byteAt_eq (by rw [took.length inside]; exact inside), held]

/-! ### The remaining length -/

/-- The 16 bits of the multiplier are too few for its limit. -/
theorem multiplier_small (multiplier : UInt16) : ¬ multiplier.toNat > 128 * 128 * 128 := by
  have word := multiplier.toNat_lt
  omega

/-- One turn of the loop over the length bytes. -/
theorem readLength_step (fuel : Nat) (packetLength multiplier : UInt16) (additional : UInt8)
    (arrives : arriving w.env.inbound = byte :: stream) (inside : pos < buffSize)
    (sized : w.buf.length = buffSize) :
    ∃ w₁, Took w pos [byte] w₁ ∧ arriving w₁.env.inbound = stream ∧
      readLength (fuel + 1) pos packetLength multiplier additional w =
        if Continues byte then
          readLength fuel (pos + 1) (packetLength + (byte &&& 127).toUInt16 * multiplier)
            (multiplier * 128) (additional + 1) w₁
        else .ok (some ⟨packetLength + (byte &&& 127).toUInt16 * multiplier, additional + 1, pos + 1⟩,
          w₁) := by
  obtain ⟨w₁, ran, took, left⟩ := connRead_one arrives inside
  refine ⟨w₁, took, left, ?_⟩
  rw [readLength, bind_of_ok ran, if_neg Nat.one_ne_zero, bind_of_ok (byteAt_took took (sized ▸ inside))]
  dsimp only
  rw [if_neg (multiplier_small _)]
  by_cases more : byte &&& 128 ≠ 0
  · rw [if_pos more, if_pos (show Continues byte from more)]
  · rw [if_neg more, if_neg (show ¬ Continues byte from more)]
    rfl

theorem lengthBytes_pos (byte : UInt8) (stream : List UInt8) :
    0 < (lengthBytes (byte :: stream)).length := by
  unfold lengthBytes
  split <;> simp

/-- The loop over the length bytes of a stream, as long as they fit. -/
theorem readLength_fits (stream : List UInt8) (fuel pos : Nat) (packetLength multiplier : UInt16)
    (additional : UInt8) (arrives : arriving w.env.inbound = stream) (sized : w.buf.length = buffSize)
    (enough : buffSize < fuel + pos) (inside : pos + (lengthBytes stream).length ≤ buffSize) :
    ∃ w', readLength fuel pos packetLength multiplier additional w =
        .ok (if Ended stream then
          some ⟨packetLength + multiplier * .ofNat (value (lengthBytes stream)),
            additional + .ofNat (lengthBytes stream).length, pos + (lengthBytes stream).length⟩
          else none, w') ∧
      Took w pos (lengthBytes stream) w' ∧
      (Ended stream → stream = lengthBytes stream ++ arriving w'.env.inbound) := by
  induction stream generalizing fuel pos packetLength multiplier additional w with
  | nil =>
    have inside : pos ≤ buffSize := by simpa [lengthBytes] using inside
    obtain ⟨w', ran, took⟩ := connRead_none pos 1 arrives inside
    cases fuel with
    | zero => omega
    | succ fuel =>
      refine ⟨w', ?_, took, fun ended => absurd ended not_ended_nil⟩
      rw [readLength, bind_of_ok ran, if_pos rfl, if_neg not_ended_nil]
      rfl
  | cons byte rest ih =>
    have some := lengthBytes_pos byte rest
    cases fuel with
    | zero => omega
    | succ fuel =>
      have within : pos < buffSize := by omega
      obtain ⟨w₁, took, left, ran⟩ :=
        readLength_step fuel packetLength multiplier additional arrives within sized
      have word : (byte &&& 127).toUInt16 = .ofNat (byte &&& 127).toNat := by
        rw [← UInt16.toNat_inj]
        simp
      rw [ran]
      by_cases more : Continues byte
      · simp only [if_pos more, ended_next more, lengthBytes_next more]
        rw [lengthBytes_next more, List.length_cons] at inside
        have sized₁ : w₁.buf.length = buffSize := by
          rw [took.length (by simp; omega), sized]
        obtain ⟨w', ran, took', ended⟩ := ih fuel (pos + 1)
          (packetLength + (byte &&& 127).toUInt16 * multiplier) (multiplier * 128) (additional + 1)
          left sized₁ (by omega) (by omega)
        refine ⟨w', ?_, ?_, fun whole => ?_⟩
        · rw [ran]
          have number : packetLength + (byte &&& 127).toUInt16 * multiplier +
              multiplier * 128 * .ofNat (value (lengthBytes rest)) =
                packetLength + multiplier * .ofNat (value (byte :: lengthBytes rest)) := by
            have seven : UInt16.ofNat 128 = 128 := rfl
            rw [value, UInt16.ofNat_add, UInt16.ofNat_mul, word, seven]
            grind
          have count : additional + 1 + .ofNat (lengthBytes rest).length =
              additional + .ofNat (byte :: lengthBytes rest).length := by
            have one : UInt8.ofNat 1 = 1 := rfl
            rw [List.length_cons, UInt8.ofNat_add, one]
            grind
          have place : pos + 1 + (lengthBytes rest).length =
              pos + (byte :: lengthBytes rest).length := by
            rw [List.length_cons]
            omega
          rw [number, count, place]
        · exact took.trans (by omega) took'
        · rw [List.cons_append, ← ended whole]
      · rw [if_neg more, lengthBytes_last more, if_pos (ended_last more)]
        refine ⟨w₁, ?_, took, fun _ => by rw [left]; rfl⟩
        simp [value, word, UInt16.mul_comm, UInt8.ofNat]

/-- More length bytes than the buffer has room for are written outside it. -/
theorem readLength_outside (stream : List UInt8) (fuel pos : Nat) (packetLength multiplier : UInt16)
    (additional : UInt8) (arrives : arriving w.env.inbound = stream) (sized : w.buf.length = buffSize)
    (enough : buffSize < fuel + pos) (room : pos ≤ buffSize)
    (outside : buffSize < pos + (lengthBytes stream).length) :
    readLength fuel pos packetLength multiplier additional w = .error .outOfBounds := by
  induction stream generalizing fuel pos packetLength multiplier additional w with
  | nil =>
    simp only [lengthBytes, List.length_nil] at outside
    omega
  | cons byte rest ih =>
    cases fuel with
    | zero => omega
    | succ fuel =>
      by_cases full : pos = buffSize
      · have ran : connRead pos 1 w = .error .outOfBounds :=
          connRead_outside (by rw [arrives]; simp) full.ge
        rw [readLength, bind_of_error ran]
      · have within : pos < buffSize := by omega
        obtain ⟨w₁, took, left, ran⟩ :=
          readLength_step fuel packetLength multiplier additional arrives within sized
        by_cases more : Continues byte
        · rw [ran, if_pos more]
          rw [lengthBytes_next more, List.length_cons] at outside
          have sized₁ : w₁.buf.length = buffSize := by
            rw [took.length (by simp; omega), sized]
          exact ih fuel (pos + 1) _ _ _ left sized₁ (by omega) (by omega) (by omega)
        · rw [lengthBytes_last more, List.length_singleton] at outside
          omega

/-- What the test behind the loop refuses. -/
def Refused : Option Header → Prop
  | none => True
  | some header => header.packetLength.toNat + header.additionalPacketLen.toNat > 1024

/-- The fourth length byte still continues, or the packet with its header is
longer than the buffer. -/
def Malformed (stream : List UInt8) : Prop :=
  4 ≤ stream.length ∧ (∀ byte ∈ stream.take 4, Continues byte) ∨
    Ended stream ∧ 1024 < value (lengthBytes stream) + (1 + (lengthBytes stream).length)

/-- The loop over the length bytes of what arrives after a first byte reads at
most four of them and stays inside the buffer; a malformed length is refused and
any other read exactly, once it has ended. -/
def Guarded (w : World) : Prop :=
  ∃ ret w', readLength buffSize 1 0 1 1 w = .ok (ret, w') ∧
    w.env.inbound.flatten.length ≤ w'.env.inbound.flatten.length + 4 ∧
    (Malformed (arriving w.env.inbound) → Refused ret) ∧
    (¬ Malformed (arriving w.env.inbound) → if Ended (arriving w.env.inbound) then
      ∃ header, ret = some header ∧ header.packetLength.toNat = value (lengthBytes (arriving w.env.inbound))
      else ret = none)

/-- No fifth length byte arrives, and a packet that is too long is so in the
last 16 bits of its length as well. -/
def Decodable (stream : List UInt8) : Prop :=
  (lengthBytes stream).length ≤ 4 ∧
    (Ended stream → 1024 < value (lengthBytes stream) + (1 + (lengthBytes stream).length) →
      1024 < value (lengthBytes stream) % 2 ^ 16 + (1 + (lengthBytes stream).length))

/-- What the loop answers for a length that fits into the buffer. -/
theorem readLength_answer (sized : w.buf.length = buffSize)
    (fits : (lengthBytes (arriving w.env.inbound)).length < buffSize) :
    ∃ w', readLength buffSize 1 0 1 1 w =
        .ok (if Ended (arriving w.env.inbound) then
          some ⟨.ofNat (value (lengthBytes (arriving w.env.inbound))),
            .ofNat (1 + (lengthBytes (arriving w.env.inbound)).length),
            1 + (lengthBytes (arriving w.env.inbound)).length⟩
          else none, w') ∧
      Took w 1 (lengthBytes (arriving w.env.inbound)) w' ∧
      (Ended (arriving w.env.inbound) → arriving w.env.inbound =
        lengthBytes (arriving w.env.inbound) ++ arriving w'.env.inbound) := by
  have answer := readLength_fits _ buffSize 1 0 1 1 rfl sized (by decide) (by omega)
  have zero : (0 : UInt16) + 1 * .ofNat (value (lengthBytes (arriving w.env.inbound))) =
      .ofNat (value (lengthBytes (arriving w.env.inbound))) := by
    rw [UInt16.zero_add, UInt16.one_mul]
  have one : (1 : UInt8) + .ofNat (lengthBytes (arriving w.env.inbound)).length =
      .ofNat (1 + (lengthBytes (arriving w.env.inbound)).length) := by
    rw [UInt8.ofNat_add]
    rfl
  rwa [zero, one] at answer

/-- A length that is refused drops the connection. -/
theorem readPacket_refused {ret : Option Header} (first : connRead 0 1 w = .ok (1, w₁))
    (ran : readLength buffSize 1 0 1 1 w₁ = .ok (ret, w')) (refused : Refused ret) :
    readPacket w = .ok (none, w') := by
  rw [readPacket, bind_of_ok first, if_neg Nat.one_ne_zero, bind_of_ok ran]
  cases ret with
  | none => rfl
  | some header =>
    dsimp only
    rw [if_pos (show header.packetLength.toNat + header.additionalPacketLen.toNat > 1024 from refused)]
    rfl

/-- A length that is not refused has the payload read. -/
theorem readPacket_read {header : Header} (first : connRead 0 1 w = .ok (1, w₁))
    (ran : readLength buffSize 1 0 1 1 w₁ = .ok (some header, w₂))
    (fits : header.packetLength.toNat + header.additionalPacketLen.toNat ≤ 1024)
    (payload : readPayload header.packetLength.toNat header.curPos header.packetLength.toNat w₂ =
      .ok (false, w')) :
    readPacket w = .ok (some { header with
      packetLength := header.packetLength + header.additionalPacketLen.toUInt16 }, w') := by
  rw [readPacket, bind_of_ok first, if_neg Nat.one_ne_zero, bind_of_ok ran]
  dsimp only
  rw [if_neg (by omega), bind_of_ok payload]
  rfl

/-- A length that ends behind so many bytes that continue has more of them. -/
theorem lengthBytes_long {k : Nat} (continues : ∀ byte ∈ stream.take k, Continues byte)
    (ended : Ended stream) : k < (lengthBytes stream).length := by
  induction stream generalizing k with
  | nil => exact absurd ended not_ended_nil
  | cons byte rest ih =>
    cases k with
    | zero => exact lengthBytes_pos byte rest
    | succ k =>
      have more : Continues byte := continues byte (by simp)
      rw [lengthBytes_next more, List.length_cons]
      have later := ih (k := k) (fun b member => continues b (List.mem_cons_of_mem byte member))
        ((ended_next more).mp ended)
      omega

/-- The loop is guarded exactly when it does not read a fifth length byte and
the length has not wrapped below the limit; and what the test refuses drops the
connection. -/
theorem lengths_guarded_iff (w : World) (sized : w.buf.length = buffSize) :
    (Guarded w ↔ Decodable (arriving w.env.inbound)) ∧
      ∀ w₀ ret w', connRead 0 1 w₀ = .ok (1, w) → readLength buffSize 1 0 1 1 w = .ok (ret, w') →
        Refused ret → readPacket w₀ = .ok (none, w') := by
  refine ⟨?_, fun w₀ ret w' first ran refused => readPacket_refused first ran refused⟩
  have width (n : Nat) : (UInt16.ofNat n).toNat = n % 2 ^ 16 := UInt16.toNat_ofNat'
  have count (n : Nat) (few : n ≤ 4) : (UInt8.ofNat (1 + n)).toNat = 1 + n := by
    rw [UInt8.toNat_ofNat']
    omega
  constructor
  · rintro ⟨ret, w', ran, few, refuses, -⟩
    by_cases fits : (lengthBytes (arriving w.env.inbound)).length < buffSize
    · obtain ⟨w'', answer, took, -⟩ := readLength_answer sized fits
      obtain ⟨rfl, rfl⟩ := Prod.mk.inj (Except.ok.inj (answer.symm.trans ran))
      have short : (lengthBytes (arriving w.env.inbound)).length ≤ 4 := by
        have taken := took.count
        omega
      refine ⟨short, fun ended long => ?_⟩
      have refused := refuses (.inr ⟨ended, long⟩)
      rw [if_pos ended] at refused
      simpa only [Refused, width, count _ short] using refused
    · have fault := readLength_outside _ buffSize 1 0 1 1 rfl sized (by decide) (by decide)
        (by omega : buffSize < 1 + (lengthBytes (arriving w.env.inbound)).length)
      rw [fault] at ran
      cases ran
  · rintro ⟨short, exceeds⟩
    have fits : (lengthBytes (arriving w.env.inbound)).length < buffSize :=
      Nat.lt_of_le_of_lt short (by decide)
    obtain ⟨w', answer, took, -⟩ := readLength_answer sized fits
    refine ⟨_, w', answer, ?_, fun malformed => ?_, fun formed => ?_⟩
    · have taken := took.count
      omega
    · by_cases ended : Ended (arriving w.env.inbound)
      · rw [if_pos ended]
        simp only [Refused, width, count _ short]
        rcases malformed with ⟨-, continues⟩ | ⟨-, long⟩
        · have more := lengthBytes_long continues ended
          omega
        · exact exceeds ended long
      · rw [if_neg ended]
        trivial
    · by_cases ended : Ended (arriving w.env.inbound)
      · rw [if_pos ended, if_pos ended]
        refine ⟨_, rfl, ?_⟩
        have small : ¬ 1024 < value (lengthBytes (arriving w.env.inbound)) +
            (1 + (lengthBytes (arriving w.env.inbound)).length) := fun long => formed (.inr ⟨ended, long⟩)
        rw [width]
        omega
      · rw [if_neg ended, if_neg ended]

/-- The worker reads these bytes. -/
def arrival (bytes : List UInt8) : World :=
  { World.initial .clean with env := { inbound := [bytes] } }

/-- A packet of 2048 bytes is refused. -/
theorem long_length_guarded : Malformed [0x80, 0x10] ∧ Guarded (arrival [0x80, 0x10]) :=
  ⟨.inr (by decide),
    (lengths_guarded_iff (arrival [0x80, 0x10]) List.length_replicate).1.mpr ⟨by decide, fun _ _ => by decide⟩⟩

/-- A remaining length of 65536 is read as 0. -/
theorem readLength_wraps (arrives : arriving w.env.inbound = [128, 128, 4])
    (sized : w.buf.length = buffSize) :
    ∃ w', readLength buffSize 1 0 1 1 w = .ok (some ⟨0, 4, 4⟩, w') := by
  obtain ⟨w', answer, -⟩ := readLength_answer sized (by rw [arrives]; decide)
  rw [arrives] at answer
  exact ⟨w', answer⟩

theorem long_packet_accepted :
    Malformed [128, 128, 4] ∧ ¬ Guarded (arrival [128, 128, 4]) ∧
      ∃ w, readPacket (arrival [0xC0, 128, 128, 4]) = .ok (some ⟨4, 4, 4⟩, w) := by
  refine ⟨.inr (by decide), fun ⟨ret, w', ran, _, refuses, _⟩ => ?_, ?_⟩
  · obtain ⟨w'', answer⟩ := readLength_wraps (w := arrival [128, 128, 4]) rfl List.length_replicate
    rw [answer] at ran
    cases ran
    exact absurd (refuses (.inr (by decide))) (by simp [Refused])
  · have buffer : (arrival [0xC0, 128, 128, 4]).buf.length = buffSize := List.length_replicate
    obtain ⟨w₁, first, took, left⟩ :=
      connRead_one (w := arrival [0xC0, 128, 128, 4]) rfl (show 0 < buffSize by decide)
    have sized : w₁.buf.length = buffSize := by
      rw [took.length (by rw [buffer]; decide), buffer]
    obtain ⟨w', answer⟩ := readLength_wraps left sized
    exact ⟨w', readPacket_read first answer (by decide) rfl⟩

/-! ### Packets -/

/-- A packet whose remaining length has at most three bytes, and which fits into
the buffer. -/
structure Packet where
  head : UInt8
  length : List UInt8
  body : List UInt8
  whole : Whole length
  few : length.length ≤ 3
  exact : value length = body.length
  fits : 1 + length.length + body.length ≤ buffSize

def Packet.encoded (packet : Packet) : List UInt8 := packet.head :: (packet.length ++ packet.body)

theorem Packet.size (packet : Packet) :
    packet.encoded.length = 1 + packet.length.length + packet.body.length := by
  simp only [encoded, List.length_cons, List.length_append]
  omega

/-- The loop over the reads of a payload, however its bytes are cut. -/
theorem readPayload_arriving (fuel : Nat) (body more : List UInt8) (pos : Nat)
    (arrives : arriving w.env.inbound = body ++ more) (sized : w.buf.length = buffSize)
    (enough : body.length ≤ fuel) (inside : pos + body.length ≤ buffSize) :
    ∃ w', readPayload fuel pos body.length w = .ok (false, w') ∧ Took w pos body w' ∧
      arriving w'.env.inbound = more := by
  induction fuel generalizing body pos w with
  | zero =>
    obtain rfl := List.eq_nil_of_length_eq_zero (Nat.le_zero.mp enough)
    exact ⟨w, rfl, Took.nothing w pos, arrives⟩
  | succ fuel ih =>
    by_cases none : body = []
    · subst none
      exact ⟨w, rfl, Took.nothing w pos, arrives⟩
    · have left : 0 < body.length := List.length_pos_of_ne_nil none
      obtain ⟨bytes, w₁, ran, some, short, took, split⟩ :=
        connRead_some (w := w) pos body.length (by simp [arrives, none]) left inside
      have taken := List.length_pos_of_ne_nil some
      obtain ⟨rest, rfl⟩ : bytes <+: body := by
        refine List.prefix_of_prefix_length_le ?_ (List.prefix_append body more) short
        rw [← arrives, split]
        exact List.prefix_append bytes _
      rw [List.length_append] at inside enough
      have arrives₁ : arriving w₁.env.inbound = rest ++ more := by
        rw [arrives, List.append_assoc] at split
        exact (List.append_cancel_left split).symm
      have sized₁ : w₁.buf.length = buffSize := by
        rw [took.length (by omega), sized]
      obtain ⟨w', ran', took', arrives'⟩ :=
        ih rest (pos + bytes.length) arrives₁ sized₁ (by omega) (by omega)
      refine ⟨w', ?_, took.trans (by omega) took', arrives'⟩
      rw [readPayload, if_neg (by omega), bind_of_ok ran, if_neg (by omega), List.length_append,
        Nat.add_sub_cancel_left, ran']

/-- A packet that arrives is read whole, and nothing behind it. -/
theorem readPacket_arriving (packet : Packet) {more : List UInt8}
    (arrives : arriving w.env.inbound = packet.encoded ++ more) (sized : w.buf.length = buffSize) :
    ∃ header w', readPacket w = .ok (some header, w') ∧
      header.packetLength.toNat = packet.encoded.length ∧ header.curPos = 1 + packet.length.length ∧
      header.additionalPacketLen.toNat = header.curPos ∧ Took w 0 packet.encoded w' ∧
      arriving w'.env.inbound = more := by
  have fits := packet.fits
  have few := packet.few
  have size := packet.size
  have buffer : buffSize = 1024 := rfl
  rw [Packet.encoded, List.cons_append, List.append_assoc] at arrives
  obtain ⟨w₁, first, took₁, arrives₁⟩ := connRead_one arrives (show 0 < buffSize by decide)
  have sized₁ : w₁.buf.length = buffSize := by
    rw [took₁.length (by simp; omega), sized]
  obtain ⟨same, ended⟩ := lengthBytes_whole packet.whole (packet.body ++ more)
  obtain ⟨w₂, answer, took₂, ended₂⟩ := readLength_answer sized₁ (by rw [arrives₁, same]; omega)
  rw [arrives₁, same] at answer took₂ ended₂
  rw [if_pos ended, packet.exact] at answer
  have arrives₂ := (List.append_cancel_left (ended₂ ended)).symm
  have sized₂ : w₂.buf.length = buffSize := by
    rw [took₂.length (by omega), sized₁]
  have body : (UInt16.ofNat packet.body.length).toNat = packet.body.length := by
    rw [UInt16.toNat_ofNat']
    omega
  have count : (UInt8.ofNat (1 + packet.length.length)).toNat = 1 + packet.length.length := by
    rw [UInt8.toNat_ofNat']
    omega
  obtain ⟨w₃, payload, took₃, arrives₃⟩ := readPayload_arriving packet.body.length packet.body more
    (1 + packet.length.length) arrives₂ sized₂ le_rfl (by omega)
  have took : Took w 0 packet.encoded w₃ :=
    took₁.trans (Nat.zero_le _) (took₂.trans (by simp [sized₁, buffer]) took₃)
  refine ⟨⟨.ofNat packet.body.length + (UInt8.ofNat (1 + packet.length.length)).toUInt16,
    .ofNat (1 + packet.length.length), 1 + packet.length.length⟩, w₃, ?_, ?_, rfl, count, took, arrives₃⟩
  · refine readPacket_read first answer (by rw [body, count]; omega) ?_
    rw [body, payload]
  · simp only [UInt16.toNat_add, UInt8.toNat_toUInt16, body, count]
    omega

/-- The read events of a socket yield these packets in order, each over the
front of the buffer, and leave what comes behind them unread; whatever happens
between two of them but reading from the connection. -/
def Framed (sock : Fin 64) (behind : List UInt8) : List Packet → World → Prop
  | [], w => arriving w.env.inbound = behind
  | packet :: rest, w => ∃ header w', readPacket w = .ok (some header, w') ∧
      readEvent sock w = (if (w'.socks sock).clientid = [] then connectEvent sock header.curPos
        else dispatch sock header) (w'.log (.received sock (w'.socks sock) packet.encoded)) ∧
      header.packetLength.toNat = packet.encoded.length ∧ header.curPos = 1 + packet.length.length ∧
      header.additionalPacketLen.toNat = header.curPos ∧
      w'.buf = packet.encoded ++ w.buf.drop packet.encoded.length ∧
      ∀ next : World, next.env.inbound = w'.env.inbound → next.buf.length = buffSize →
        Framed sock behind rest next

/-- Reading inverts the encoding of packets, for every cut of their stream. -/
theorem packets_framed (sock : Fin 64) (packets : List Packet) (behind : List UInt8) (w : World)
    (arrives : arriving w.env.inbound = packets.flatMap Packet.encoded ++ behind)
    (sized : w.buf.length = buffSize) : Framed sock behind packets w := by
  induction packets generalizing w with
  | nil => exact arrives
  | cons packet rest ih =>
    rw [List.flatMap_cons, List.append_assoc] at arrives
    obtain ⟨header, w', ran, length, place, added, took, left⟩ := readPacket_arriving packet arrives sized
    have buf : w'.buf = packet.encoded ++ w.buf.drop packet.encoded.length := by
      simpa using took.buf
    refine ⟨header, w', ran, ?_, length, place, added, buf, fun next same sized => ?_⟩
    · have read : w'.buf.take header.packetLength.toNat = packet.encoded := by
        rw [length, buf, List.take_left]
      rw [readEvent, bind_of_ok ran]
      dsimp only
      rw [← read]
      rfl
    · refine ih next ?_ sized
      rw [same]
      exact left

/-- A PUBLISH, a SUBSCRIBE with a padded length and a PINGREQ. -/
def threePackets : List Packet :=
  [⟨0x30, [4], [0, 1, 97, 33], by decide, by decide, rfl, by decide⟩,
    ⟨0x82, [0x86, 0], [0, 1, 0, 1, 97, 0], by decide, by decide, rfl, by decide⟩,
    ⟨0xC0, [0], [], by decide, by decide, rfl, by decide⟩]

/-- They arrive in chunks that end inside a body and inside a length. -/
theorem threePackets_framed : Framed 0 [0xE0] threePackets { World.initial .clean with
    env := { inbound := [[0x30, 4, 0], [1, 97, 33, 0x82, 0x86], [0, 0, 1, 0, 1, 97, 0, 0xC0], [0, 0xE0]] } } :=
  packets_framed 0 threePackets [0xE0] _ rfl List.length_replicate

end MqttBroker.Framing
