import MqttBroker.Worker.Loop

/-! What a completed run of each call can have done, said once. -/
namespace MqttBroker.Worker
open Logic

variable {w w' : World} {sock : Fin 64} {α β : Type} {a : α} {b : β}

theorem fault_ok {kind : Fault} : ¬ (fault kind : Worker α) w = .ok (a, w') := throw_ok

theorem log_ok {e : Event} {u : Unit} : log e w = .ok (u, w') ↔ w' = w.log e := modify_ok

theorem log_bind_ok {e : Event} {f : Unit → Worker β} :
    (log e >>= f) w = .ok (b, w') ↔ f () (w.log e) = .ok (b, w') := modify_bind_ok

theorem setSock_ok {f : SockCid → SockCid} {u : Unit} :
    setSock sock f w = .ok (u, w') ↔ w' = w.setSock sock f := modify_ok

theorem setSock_bind_ok {g : SockCid → SockCid} {f : Unit → Worker β} :
    (setSock sock g >>= f) w = .ok (b, w') ↔ f () (w.setSock sock g) = .ok (b, w') :=
  modify_bind_ok

theorem check_ok {outcome : Outcome α} :
    check outcome w = .ok (a, w') ↔ outcome = .ok a ∧ w' = w := by
  cases outcome with
  | ok answer =>
    refine pure_ok.trans (and_congr_left fun _ => ?_)
    rw [Except.ok.injEq, eq_comm]
  | error kind => simp [check, throw_ok]

theorem sockAt_bind_ok {f : SockCid → Worker β} :
    (sockAt sock >>= f) w = .ok (b, w') ↔ f (w.socks sock) w = .ok (b, w') := Iff.rfl

theorem storeGet_bind_ok {packetId : UInt16} {f : Option Nat → Worker β} :
    (storeGet packetId >>= f) w = .ok (b, w') ↔
      f (w.publishMsgStore.get packetId) w = .ok (b, w') := Iff.rfl

theorem check_bind_ok {outcome : Outcome α} {f : α → Worker β}
    (ran : (check outcome >>= f) w = .ok (b, w')) :
    ∃ a, outcome = .ok a ∧ f a w = .ok (b, w') := by
  obtain ⟨a, mid, checked, rest⟩ := bind_ok.mp ran
  obtain ⟨held, rfl⟩ := check_ok.mp checked
  exact ⟨a, held, rest⟩

theorem deref_ok {client : Option Nat} {found : Client} (ran : deref client w = .ok (found, w')) :
    (∃ addr, client = some addr ∧ w.clientAt addr = some found) ∧ w' = w := by
  cases client with
  | none => exact absurd ran fault_ok
  | some addr =>
    rw [deref, get_bind_ok] at ran
    cases held : w.clientAt addr with
    | none =>
      rw [held] at ran
      exact absurd ran fault_ok
    | some client =>
      rw [held] at ran
      obtain ⟨rfl, rfl⟩ := pure_ok.mp ran
      exact ⟨⟨addr, rfl, held⟩, rfl⟩

theorem deref_held {addr : Nat} {found : Client} (held : w.clientAt addr = some found) :
    deref (some addr) w = .ok (found, w) := by
  have seen : (get : Worker World) w = .ok (w, w) := rfl
  rw [deref, bind_of_ok seen, held]
  rfl

theorem deref_bind_ok {client : Option Nat} {f : Client → Worker β}
    (ran : (deref client >>= f) w = .ok (b, w')) :
    ∃ addr found, client = some addr ∧ w.clientAt addr = some found ∧ f found w = .ok (b, w') := by
  obtain ⟨found, mid, read, rest⟩ := bind_ok.mp ran
  obtain ⟨⟨addr, same, held⟩, rfl⟩ := deref_ok read
  exact ⟨addr, found, same, held, rest⟩

theorem completes_check {outcome : Outcome α} {f : α → Worker β} {post : β → World → Prop} :
    Completes w (check outcome >>= f) post ↔ ∃ a, outcome = .ok a ∧ Completes w (f a) post := by
  cases outcome with
  | error kind =>
    refine iff_of_false (mt completes_bind.mp (not_completes rfl)) ?_
    rintro ⟨_, failed, -⟩
    cases failed
  | ok answer =>
    refine (completes_next (check_ok.mpr ⟨rfl, rfl⟩)).trans ⟨fun ends => ⟨answer, rfl, ends⟩, ?_⟩
    rintro ⟨a, same, ends⟩
    cases same
    exact ends

theorem completes_deref {client : Option Nat} {f : Client → Worker β} {post : β → World → Prop} :
    Completes w (deref client >>= f) post ↔
      ∃ addr found, client = some addr ∧ w.clientAt addr = some found ∧ Completes w (f found) post := by
  constructor
  · rintro ⟨b, w', ran, held⟩
    obtain ⟨addr, found, same, there, ran⟩ := deref_bind_ok ran
    exact ⟨addr, found, same, there, b, w', ran, held⟩
  · rintro ⟨addr, found, rfl, there, ends⟩
    exact (completes_next (deref_held there)).mpr ends

theorem setClient_ok {client : Option Nat} {f : Client → Client} {u : Unit}
    (ran : setClient client f w = .ok (u, w')) :
    ∃ addr, client = some addr ∧ w' = w.setClient addr f := by
  cases client with
  | none => exact absurd ran fault_ok
  | some addr => exact ⟨addr, rfl, modify_ok.mp ran⟩

theorem sendtoque_ok {msg : Message} {ok : Bool} (ran : sendtoque msg w = .ok (ok, w')) :
    ∃ env, w' = { w with env := env }.log (.queued msg ok) := by
  rw [sendtoque, get_bind_ok, set_bind_ok, log_bind_ok] at ran
  obtain ⟨rfl, rfl⟩ := pure_ok.mp ran
  exact ⟨_, rfl⟩

theorem connWrite_ok {bytes : List UInt8} {item : Option PackidStateItem} {ok : Bool}
    (ran : connWrite sock bytes item w = .ok (ok, w')) :
    ∃ env, w' = { w with env := env }.log (.wrote sock (w.socks sock) bytes item) := by
  rw [connWrite, get_bind_ok, set_bind_ok, log_bind_ok] at ran
  obtain ⟨rfl, rfl⟩ := pure_ok.mp ran
  exact ⟨_, rfl⟩

/-! ### The buffer -/

theorem byteAt_eq {pos : Nat} (inside : pos < w.buf.length) :
    byteAt pos w = .ok (w.buf.getD pos 0, w) := by
  change (if pos < w.buf.length then pure (w.buf.getD pos 0) else fault .outOfBounds) w = _
  rw [if_pos inside]
  rfl

theorem byteAt_ok {pos : Nat} {byte : UInt8} (ran : byteAt pos w = .ok (byte, w')) :
    byte = w.buf.getD pos 0 ∧ w' = w := by
  rw [byteAt, get_bind_ok] at ran
  split at ran
  · exact pure_ok.mp ran
  · exact absurd ran fault_ok

theorem ntohsAt_still {pos : Nat} {word : UInt16} (ran : ntohsAt pos w = .ok (word, w')) : w' = w := by
  obtain ⟨high, w₁, first, ran⟩ := bind_ok.mp ran
  obtain ⟨low, w₂, second, ran⟩ := bind_ok.mp ran
  rw [(pure_ok.mp ran).2, (byteAt_ok second).2, (byteAt_ok first).2]

theorem packetIdAt_still {pos : Nat} {id : UInt16} (ran : packetIdAt pos w = .ok (id, w')) : w' = w := by
  obtain ⟨low, w₁, first, ran⟩ := bind_ok.mp ran
  obtain ⟨high, w₂, second, ran⟩ := bind_ok.mp ran
  rw [(pure_ok.mp ran).2, (byteAt_ok second).2, (byteAt_ok first).2]

theorem rangeAt_ok {pos len : Nat} {bytes : List UInt8} (ran : rangeAt pos len w = .ok (bytes, w')) :
    bytes = (w.buf.drop pos).take len ∧ w' = w := by
  rw [rangeAt, get_bind_ok] at ran
  split at ran
  · exact pure_ok.mp ran
  · exact absurd ran fault_ok

theorem rangeAt_length {pos len : Nat} {bytes : List UInt8}
    (ran : rangeAt pos len w = .ok (bytes, w')) : bytes.length = len := by
  rw [rangeAt, get_bind_ok] at ran
  split at ran
  · obtain ⟨rfl, -⟩ := pure_ok.mp ran
    rw [List.length_take, List.length_drop]
    omega
  · exact absurd ran fault_ok

/-! ### Calls that only read -/

/-- The tables and the trace are as before. -/
def Quiet (w w' : World) : Prop := ∃ env buf, w' = { w with env := env, buf := buf }

theorem Quiet.refl (w : World) : Quiet w w := ⟨w.env, w.buf, rfl⟩

theorem Quiet.trans {w₁ w₂ w₃ : World} (first : Quiet w₁ w₂) (second : Quiet w₂ w₃) :
    Quiet w₁ w₃ := by
  obtain ⟨_, _, rfl⟩ := first
  obtain ⟨env, buf, rfl⟩ := second
  exact ⟨env, buf, rfl⟩

theorem Quiet.store (quiet : Quiet w w') : w'.publishMsgStore = w.publishMsgStore := by
  obtain ⟨_, _, rfl⟩ := quiet
  rfl

theorem quiet_bind {m : Worker α} {f : α → Worker β} (first : Along Quiet m)
    (rest : ∀ a, Along Quiet (f a)) : Along Quiet (m >>= f) := by
  refine Along.bind ?_ first rest
  exact Quiet.trans

theorem quiet_pure (a : α) : Along Quiet (pure a : Worker α) := Along.pure Quiet.refl a

theorem quiet_fault (kind : Fault) : Along Quiet (fault kind : Worker α) :=
  fun _ => ensures_throw

theorem quiet_get {f : World → Worker β} (rest : ∀ w, Along Quiet (f w)) :
    Along Quiet (get >>= f) :=
  Along.get fun w => rest w w

theorem quiet_check (outcome : Outcome α) : Along Quiet (check outcome) := by
  intro w a w' ran
  rw [(check_ok.mp ran).2]
  exact Quiet.refl w

theorem quiet_onHeap (call : Heap → α × Heap) : Along Quiet (onHeap call) := by
  intro w a w' ran
  rw [onHeap, get_bind_ok, set_bind_ok] at ran
  obtain ⟨-, rfl⟩ := pure_ok.mp ran
  exact ⟨_, w.buf, rfl⟩

theorem quiet_random : Along Quiet espRandom := by
  intro w a w' ran
  rw [espRandom, get_bind_ok, set_bind_ok] at ran
  obtain ⟨-, rfl⟩ := pure_ok.mp ran
  exact ⟨_, w.buf, rfl⟩

theorem quiet_handshake : Along Quiet handshake := by
  intro w a w' ran
  rw [handshake, get_bind_ok, set_bind_ok] at ran
  obtain ⟨-, rfl⟩ := pure_ok.mp ran
  exact ⟨_, w.buf, rfl⟩

theorem quiet_stackByte : Along Quiet stackByte := by
  intro w a w' ran
  rw [stackByte, get_bind_ok, set_bind_ok] at ran
  obtain ⟨-, rfl⟩ := pure_ok.mp ran
  exact ⟨_, w.buf, rfl⟩

theorem quiet_connRead (pos len : Nat) : Along Quiet (connRead pos len) := by
  intro w a w' ran
  rw [connRead, get_bind_ok] at ran
  cases inbound : w.env.inbound with
  | nil =>
    rw [inbound] at ran
    rw [(pure_ok.mp ran).2]
    exact Quiet.refl w
  | cons chunk rest =>
    rw [inbound] at ran
    dsimp only at ran
    split at ran
    · exact absurd ran fault_ok
    · rw [set_bind_ok] at ran
      obtain ⟨-, rfl⟩ := pure_ok.mp ran
      exact ⟨_, _, rfl⟩

theorem quiet_byteAt (pos : Nat) : Along Quiet (byteAt pos) := by
  refine quiet_get fun w => ?_
  split
  · exact quiet_pure _
  · exact quiet_fault _

theorem quiet_rangeAt (pos len : Nat) : Along Quiet (rangeAt pos len) := by
  refine quiet_get fun w => ?_
  split
  · exact quiet_pure _
  · exact quiet_fault _

theorem quiet_ntohsAt (pos : Nat) : Along Quiet (ntohsAt pos) :=
  quiet_bind (quiet_byteAt pos) fun _ => quiet_bind (quiet_byteAt _) fun _ => quiet_pure _

theorem quiet_packetIdAt (pos : Nat) : Along Quiet (packetIdAt pos) :=
  quiet_bind (quiet_byteAt pos) fun _ => quiet_bind (quiet_byteAt _) fun _ => quiet_pure _

theorem quiet_wrongLength (header : Header) : Along Quiet (wrongLength header) :=
  quiet_bind (quiet_byteAt 1) fun _ => quiet_pure _

section Packets
variable {R : World → World → Prop} (refl : ∀ w, R w w) (trans : ∀ w w₁ w', R w w₁ → R w₁ w' → R w w')
  (reads : ∀ pos len, Along R (connRead pos len)) (looks : ∀ pos, Along R (byteAt pos))

include trans in
theorem along_then {m : Worker α} {f : α → Worker β} (first : Along R m) (rest : ∀ a, Along R (f a)) :
    Along R (m >>= f) := by
  refine Along.bind ?_ first rest
  exact fun {w w₁ w'} => trans w w₁ w'

include refl trans reads

theorem along_readPayload (fuel pos left : Nat) : Along R (readPayload fuel pos left) := by
  induction fuel generalizing pos left with
  | zero => exact Along.pure refl _
  | succ fuel ih =>
    unfold readPayload
    split
    · exact Along.pure refl _
    · refine along_then trans (reads _ _) fun _ => ?_
      split
      · exact Along.pure refl _
      · exact ih _ _

include looks

theorem along_readLength (fuel pos : Nat) (packetLength multiplier : UInt16) (additional : UInt8) :
    Along R (readLength fuel pos packetLength multiplier additional) := by
  induction fuel generalizing pos packetLength multiplier additional with
  | zero => exact fun _ _ _ ran => absurd ran fault_ok
  | succ fuel ih =>
    refine along_then trans (reads _ _) fun _ => ?_
    split
    · exact Along.pure refl _
    · refine along_then trans (looks _) fun _ => ?_
      dsimp only
      split
      · exact Along.pure refl _
      · split
        · exact ih _ _ _ _
        · exact Along.pure refl _

/-- A packet is read by reads of its connection and looks at the buffer. -/
theorem along_readPacket : Along R readPacket := by
  refine along_then trans (reads _ _) fun _ => ?_
  split
  · exact Along.pure refl _
  · refine along_then trans (along_readLength refl trans reads looks _ _ _ _ _) fun header => ?_
    cases header with
    | none => exact Along.pure refl _
    | some header =>
      dsimp only
      split
      · exact Along.pure refl _
      · refine along_then trans (along_readPayload refl trans reads _ _ _) fun _ => ?_
        split <;> exact Along.pure refl _

end Packets

theorem quiet_readPacket : Along Quiet readPacket :=
  along_readPacket Quiet.refl (fun _ _ _ => Quiet.trans) quiet_connRead quiet_byteAt

theorem quiet_vectorAt (pos len : Nat) : Along Quiet (vectorAt pos len) := by
  unfold vectorAt
  split
  · exact quiet_pure _
  · refine quiet_bind (quiet_onHeap _) fun allocated => ?_
    split
    · exact quiet_bind (quiet_rangeAt _ _) fun _ => quiet_pure _
    · exact quiet_pure _

theorem quiet_matchesAt (pos : Nat) (bytes : List UInt8) : Along Quiet (matchesAt pos bytes) := by
  induction bytes generalizing pos with
  | nil => exact quiet_pure _
  | cons byte rest ih =>
    refine quiet_bind (quiet_byteAt _) fun _ => ?_
    split
    · exact quiet_pure _
    · exact ih _

theorem quiet_readWill (pos : Nat) (will : Will) : Along Quiet (readWill pos will) := by
  refine quiet_bind (quiet_ntohsAt _) fun _ => quiet_bind (quiet_vectorAt _ _) fun _ => ?_
  split
  · exact quiet_pure _
  · refine quiet_bind (quiet_ntohsAt _) fun _ => quiet_bind (quiet_vectorAt _ _) fun _ => ?_
    split <;> exact quiet_pure _

theorem quiet_checkPasswordAt (username : List UInt8) (pos passLen : Nat) :
    Along Quiet (checkPasswordAt username pos passLen) := by
  refine quiet_get fun _ => quiet_bind ?_ fun _ => quiet_bind (quiet_check _) fun _ => quiet_onHeap _
  split
  · exact quiet_rangeAt _ _
  · exact quiet_pure _

theorem quiet_readCredentials (pos : Nat) (password : Bool) :
    Along Quiet (readCredentials pos password) := by
  refine quiet_bind (quiet_ntohsAt _) fun _ => quiet_bind (quiet_rangeAt _ _) fun _ => ?_
  dsimp only
  split
  · exact quiet_bind (quiet_ntohsAt _) fun _ => quiet_checkPasswordAt _ _ _
  · exact quiet_checkPasswordAt _ _ _

theorem quiet_readOptions (pos : Nat) (connFlags : UInt8) (will : Will) :
    Along Quiet (readOptions pos connFlags will) := by
  refine quiet_bind ?_ fun read => ?_
  · split
    · exact quiet_readWill _ _
    · exact quiet_pure _
  · cases read with
    | none => exact quiet_pure _
    | some read =>
      refine quiet_bind ?_ fun checked => ?_
      · split
        · exact quiet_readCredentials _ _
        · exact quiet_pure _
      · split <;> exact quiet_pure _

end MqttBroker.Worker
